import IdentityTokens.Client
import IdentityTokens.Proofs.Call.Cancellation
import IdentityTokens.Proofs.Keys.Hollow
import IdentityTokens.Proofs.Keys.Readings

/-! # Clients whose calls are cancelled

Whatever a client is asked for says that it was cancelled if it was, over a request or a file or
while it waits for a key source. Only published keys are an exception: where a request for new
keys is cancelled, the keys that were kept are as good as after any other failure, and the call
goes on with them. -/
namespace IdentityTokens

open Call Interleaving

variable {kind : Kind} {url : String} {k : Nat} {fallback : Question → Memory → Prop}

/-! ## Where the keys come from -/

namespace PublishedKeys

/-- What a fetch from an address asks first. -/
inductive AsksFor (url : String) : Question → Prop
  | request {request : Request} (h : Request.build .get url [] "" = .ok request) :
      AsksFor url (.exchange request)
  | unsendable {fault : TransportFault} (h : Request.build .get url [] "" = .error fault) :
      AsksFor url .goAhead

/-- What is done in a fetch. -/
def OfFetch (url : String) : Deed → Prop
  | .ask q => q = .time ∨ AsksFor url q
  | _ => False

theorem fetch_only (url : String) : (fetch url).Only (OfFetch url) := by
  rw [fetch, Web.get]
  have hread (response : Response) : (do
      let got ← contents response
      return KeySnapshot.ofKeys got.1 (expiry (← Call.now) got.2) :
        Call KeySnapshot).Only (OfFetch url) :=
    (only_done _).bind fun _ => (only_question (.inl rfl)).bind fun _ => only_ok _
  rcases hr : Request.build .get url [] "" with fault | request
  · have hstop : (question .goAhead).Only (OfFetch url) := only_question (.inr (.unsendable hr))
    exact Only.bind (((hstop.bind only_given).bind fun _ => only_fail _).mapError _) hread
  · have hsend : (question (.exchange request)).Only (OfFetch url) :=
      only_question (.inr (.request hr))
    exact Only.bind (((hsend.bind only_given).bind fun _ => only_done _).mapError _) hread

theorem surfaces_fetch (url : String) : (fetch url).Surfaces fallback k := by
  refine Surfaces.bind ((surfaces_send _).mapError fun _ he => he) fun response => ?_
  exact (surfaces_done _).bind fun _ => (surfaces_question fun _ => rfl).bind fun _ => surfaces_ok _

/-- A refresh that is cancelled falls back on keys that were kept, and on nothing else. -/
theorem surfaces_refresh
    (h : ∀ q m, AsksFor url q → (m.keys kind).usable? ≠ none → fallback q m) :
    (refresh kind url).Surfaces fallback 1 := by
  rw [refresh_eq]
  refine Surfaces.onResult_of_only (j := 0) (k := 1) (surfaces_fetch url) (fetch_only url) ?_ ?_ ?_
  · rintro q a (rfl | hq) hi e he
    · cases hi
    refine .look ?_
    intro m hm
    have hnone : (m.keys kind).usable? = none := by
      by_contra hsome
      exact hm (h q m hq hsome)
    rw [hnone]
    exact .done he 0
  · intro g hg
    exact hg.elim
  · intro r
    rcases r with e | s
    · intro m
      dsimp only
      split <;> trivial
    · trivial

theorem surfaces_keys
    (h : ∀ q m, AsksFor url q → (m.keys kind).usable? ≠ none → fallback q m) :
    (keys kind url).Surfaces fallback 2 := by
  refine Surfaces.behind (k := 1) ?_
  refine surfaces_memory.bind fun m => Surfaces.bind (surfaces_question fun _ => rfl) fun now => ?_
  split
  · exact surfaces_ok _
  · exact surfaces_refresh h

end PublishedKeys

/-- There are keys to fall back on once the question for new ones was asked. -/
def KeySource.Kept (source : KeySource) (kind : Kind) (q : Question) (m : Memory) : Prop :=
  ∃ url, source = .published url ∧ PublishedKeys.AsksFor url q ∧ (m.keys kind).usable? ≠ none

theorem KeySource.surfaces_keys (source : KeySource) (kind : Kind) :
    (source.keys kind).Surfaces (source.Kept kind) 2 := by
  cases source with
  | fixed s => exact surfaces_ok s
  | published url => exact PublishedKeys.surfaces_keys fun q m hq hm => ⟨url, rfl, hq, hm⟩
  | stored path => exact StoredKeys.surfaces_keys kind path
  | custom => exact (surfaces_question fun _ => rfl).bind surfaces_done

/-! ## Verifying and checking -/

theorem Verifier.surfaces_verify (v : Verifier) (token : String) :
    (v.verify token).Surfaces (v.keys.Kept v.kind) 2 := by
  refine Surfaces.bind (surfaces_done _) fun p => ?_
  refine Surfaces.bind (surfaces_question fun _ => rfl) fun now => ?_
  refine Surfaces.bind (surfaces_done _) fun _ => ?_
  have hsigned : (v.checkSignature p.1 token).Surfaces (v.keys.Kept v.kind) 2 := by
    refine Surfaces.bind ((v.keys.surfaces_keys v.kind).mapError fun _ he => he) ?_
    intro s
    split
    · exact surfaces_ok ()
    · exact surfaces_fail _
  cases v.emulator with
  | true => exact surfaces_ok _
  | false => exact hsigned.bind fun _ => surfaces_ok _

theorem Users.surfaces_check (users : Users) (kind : Kind) (t : IdToken) :
    (users.check kind t).Surfaces fallback k := by
  refine Surfaces.bind ?_ fun s => surfaces_done _
  cases users with
  | lookup l => exact (surfaces_post _ _ _).bind fun _ => surfaces_done _
  | custom => exact (surfaces_question fun _ => rfl).bind surfaces_done

/-! ## Minting -/

/-- The account of a machine is found out behind a gate that nobody stops waiting for. -/
theorem RemoteSigner.surfaces_email (s : RemoteSigner) : s.email.Surfaces fallback (k + 1) := by
  have hdiscover : s.discover.Surfaces fallback k :=
    (surfaces_send _).bind fun _ => surfaces_done _
  have hremembered : s.remembered.Surfaces fallback k := by
    refine surfaces_memory.bind fun m => ?_
    split
    · exact surfaces_ok _
    · exact hdiscover.bind fun email => (surfaces_remember _).bind fun _ => surfaces_ok email
  rw [email]
  split
  · exact surfaces_ok _
  refine surfaces_memory.bind fun m => ?_
  split
  · exact surfaces_ok _
  · refine hremembered.behind.mapError ?_
    intro e he
    rw [guidance, if_pos he]
    exact he

theorem Signer.surfaces_email (s : Signer) : s.email.Surfaces fallback (k + 1) := by
  cases s with
  | emulated => exact surfaces_ok _
  | «local» a => exact surfaces_ok _
  | remote r => exact r.surfaces_email
  | custom => exact (surfaces_question fun _ => rfl).bind surfaces_done

theorem Signer.surfaces_sign (s : Signer) (message : Bytes) :
    (s.sign message).Surfaces fallback (k + 1) := by
  cases s with
  | emulated => exact surfaces_ok _
  | «local» a => exact surfaces_done _
  | remote r =>
    exact r.surfaces_email.bind fun _ => (surfaces_post _ _ _).bind fun _ => surfaces_done _
  | custom => exact (surfaces_question fun _ => rfl).bind surfaces_done

theorem Minter.surfaces_mint (m : Minter) (uid : String) (claims : List (String × Json)) :
    (m.mint uid claims).Surfaces fallback (k + 1) := by
  refine m.signer.surfaces_email.bind fun email => ?_
  refine Surfaces.bind (surfaces_done _) fun _ => Surfaces.bind (surfaces_done _) fun _ => ?_
  refine Surfaces.bind (surfaces_question fun _ => rfl) fun now => ?_
  exact (m.signer.surfaces_sign _).bind fun _ => surfaces_ok _

/-! ## Clients -/

theorem Client.surfaces_verify (c : Client) (kind : Kind) (token : String) :
    (c.verify kind token).Surfaces ((c.keys kind).Kept kind) 2 :=
  (c.verifier kind).surfaces_verify token

/-- Among any other calls, and whatever is remembered when they start, a call that is cancelled
changes nothing by that; then it fails in two turns of its own for having been cancelled, and
changes nothing in them, unless it finds something to fall back on. -/
def Call.HeedsCancellation {α : Type} (fallback : Question → Memory → Prop) (c : Call α) : Prop :=
  ∀ memory calls pre t post s, (calls : List (Call α))[t.call]? = some c →
    s = (start memory calls).run pre → Cancels t s →
    (s.step t).memory = s.memory ∧
      (FallsBackOver fallback t s post ∨ SurfacesIn t.call 2 (s.step t) post)

theorem Call.Surfaces.heeds {α : Type} {c : Call α} (h : c.Surfaces fallback 2) :
    c.HeedsCancellation fallback := by
  rintro memory calls pre t post s hc rfl hcancels
  obtain ⟨c', hc', h'⟩ := surfaces_run (s := start memory calls) h hc pre
  exact surfacesIn_of_cancels h' hc' hcancels post

/-- What holds of all that a client can be asked for, also on behalf of a tenant. -/
structure CancellationSurfaces (c : Client) : Prop where
  /-- Minting falls back on nothing. -/
  mint : ∀ uid claims, (c.mint uid claims).HeedsCancellation fun _ _ => False
  verify : ∀ kind token, (c.verify kind token).HeedsCancellation ((c.keys kind).Kept kind)
  verifyUnrevoked : ∀ kind token,
    (c.verifyUnrevoked kind token).HeedsCancellation ((c.keys kind).Kept kind)
  mintForTenant : ∀ tenant uid claims,
    ((TenantClient.mk tenant c).mint uid claims).HeedsCancellation fun _ _ => False
  verifyForTenant : ∀ tenant token,
    ((TenantClient.mk tenant c).verify token).HeedsCancellation (c.idTokenKeys.Kept .idToken)
  verifyUnrevokedForTenant : ∀ tenant token,
    ((TenantClient.mk tenant c).verifyUnrevoked token).HeedsCancellation
      (c.idTokenKeys.Kept .idToken)

/-- **Whatever a client is asked for heeds its cancellation**, but where keys were kept that
should be replaced. -/
theorem cancellationSurfaces (c : Client) : CancellationSurfaces c where
  mint uid claims := (c.minter.surfaces_mint uid claims).heeds
  verify kind token := (c.surfaces_verify kind token).heeds
  verifyUnrevoked kind token :=
    Surfaces.heeds <| (c.surfaces_verify kind token).bind fun t =>
      (c.users.surfaces_check kind t).bind fun _ => surfaces_ok t
  mintForTenant _ uid claims := (c.minter.surfaces_mint uid claims).heeds
  verifyForTenant _ token :=
    Surfaces.heeds <| (c.surfaces_verify .idToken token).bind fun t =>
      (surfaces_done _).bind fun _ => surfaces_ok t
  verifyUnrevokedForTenant _ token :=
    Surfaces.heeds <| Surfaces.bind
      ((c.surfaces_verify .idToken token).bind fun t => (surfaces_done _).bind fun _ => surfaces_ok t)
      fun t => (c.users.surfaces_check .idToken t).bind fun _ => surfaces_ok t

/-- A client whose keys are published where `plainVerifier` looks for them. -/
def plainClient : Client :=
  ⟨"p", false, .ofSigner .emulated, .published "http://certs.test/",
    .published "http://certs.test/", .custom, true⟩

/-- A key was kept and is due at the time 5, and the request for new ones is cancelled: the key
is handed out, and a token that it does not verify is called bad. -/
theorem cancelled_refresh_is_lost :
    ((PublishedKeys.keys .idToken "http://certs.test/").run
      (fun _ => PublishedKeys.alike 5 none)
      (.start (Memory.empty.replaceKeys .idToken ⟨[⟨"k", none⟩], 5⟩) false)).1 =
      .ok ⟨[⟨"k", none⟩], 5⟩ ∧
    (((plainClient.verify .idToken PublishedKeys.plainToken).run
      (fun _ => PublishedKeys.alike 5 none)
      (.start (Memory.empty.replaceKeys .idToken ⟨[⟨"k", none⟩], 5⟩) false)).1.map fun _ => ()) =
      .error (Rejection.signature.error .idToken) ∧
    (Rejection.signature.error .idToken).category ≠ .cancelled := by
  refine ⟨?_, ?_, ?_⟩ <;> decide +kernel

end IdentityTokens
