import Mathlib.Data.List.Infix
import IdentityTokens.Keys.Published
import IdentityTokens.Proofs.Call.Reach
import IdentityTokens.Proofs.Call.Turns
import IdentityTokens.Proofs.Times

/-! # Fetches, as the events tell them

A fetch is successful once its one request was answered with keys and an age, and the clock
was read. That is seen from the events of the call alone, and so is why a fetch failed; the
events of many calls tell which fetches were successful, one after the other. -/
namespace IdentityTokens.PublishedKeys

open Call

/-! ## What an answer holds -/

theorem expiry_toInt (now : Int64) (maxAge : Nat) :
    (expiry now maxAge).toInt =
      min (now.toInt + min (maxAge : Int) (2 ^ 63 - 1)) (2 ^ 63 - 1) := by
  have hlo : -2 ^ 63 ≤ now.toInt := now.le_toInt
  have hmax : Int64.maxValue.toInt = 2 ^ 63 - 1 := by decide
  rw [expiry, toInt_clamp, hmax]
  omega

theorem contents_eq_ok_iff {response : Response} {keys : List TrustedKey} {maxAge : Nat} :
    contents response = .ok (keys, maxAge) ↔
      response.isSuccess = true ∧ KeyDocument.read response.body = .ok keys ∧
        MaxAge.ofHeader (response.header? "cache-control") = .ok maxAge := by
  rw [contents]
  cases response.isSuccess with
  | false => exact ⟨nofun, nofun⟩
  | true =>
    rcases KeyDocument.read response.body with e | k
    · exact ⟨nofun, nofun⟩
    rcases MaxAge.ofHeader (response.header? "cache-control") with e | n
    · exact ⟨nofun, nofun⟩
    · constructor
      · rintro ⟨⟩
        exact ⟨rfl, rfl, rfl⟩
      · rintro ⟨-, ⟨⟩, ⟨⟩⟩
        rfl

/-! ## What is wrong with an answer -/

theorem certificateError_of_ofPem {kid : String} {pem : Bytes} {e : AuthError}
    (h : TrustedKey.ofPem kid pem = .error e) : ∃ message, e = certificateError message := by
  rw [TrustedKey.ofPem] at h
  split at h
  · cases h
    exact ⟨_, rfl⟩
  · rcases hk : Rsa.keyBytes pem with fault | b
    · rw [hk] at h
      cases h
      cases fault <;> exact ⟨_, rfl⟩
    · rw [hk] at h
      cases h

theorem certificateError_of_keysOf {certificates : List (String × String)} {e : AuthError}
    (h : KeyDocument.keysOf certificates = .error e) : ∃ message, e = certificateError message := by
  rw [KeyDocument.keysOf] at h
  induction certificates with
  | nil => cases h
  | cons c cs ih =>
    rw [List.mapM_cons] at h
    rcases error_of_bind h with hk | ⟨k, -, h⟩
    · exact certificateError_of_ofPem hk
    rcases error_of_bind h with hks | ⟨ks, -, h⟩
    · exact ih hks
    · cases h

theorem certificateError_of_read {body : Bytes} {e : AuthError}
    (h : KeyDocument.read body = .error e) : ∃ message, e = certificateError message := by
  rw [KeyDocument.read] at h
  split at h
  · cases h
    exact ⟨_, rfl⟩
  · exact certificateError_of_keysOf h

theorem certificateError_of_ofHeader {header : Option String} {e : AuthError}
    (h : MaxAge.ofHeader header = .error e) : ∃ message, e = certificateError message := by
  rw [MaxAge.ofHeader] at h
  split at h
  · cases h
    exact ⟨_, rfl⟩
  · split at h
    · cases h
    · cases h
      exact ⟨_, rfl⟩

/-- Whatever is wrong with an answer is wrong with its certificates. -/
theorem certificateError_of_contents {response : Response} {e : AuthError}
    (h : contents response = .error e) : ∃ message, e = certificateError message := by
  rw [contents] at h
  cases hs : response.isSuccess with
  | false =>
    rw [hs] at h
    cases h
    exact ⟨_, rfl⟩
  | true =>
    rw [hs] at h
    rcases error_of_bind h with hk | ⟨keys, -, h⟩
    · exact certificateError_of_read hk
    rcases error_of_bind h with hn | ⟨maxAge, -, h⟩
    · exact certificateError_of_ofHeader hn
    · cases h

/-! ## Where a fetch stands -/

theorem only_fetch {P : Deed → Prop} {url : String} (hgo : P (.ask .goAhead))
    (htime : P (.ask .time))
    (hget : ∀ request, Request.build .get url [] "" = .ok request → P (.ask (.exchange request))) :
    (fetch url).Only P := by
  refine ((only_send hgo hget).mapError _).bind fun response => (only_done _).bind fun _ => ?_
  exact (only_question htime).bind fun _ => only_ok _

theorem fetch_lasts (url : String) : (fetch url).Lasts 2 := by
  refine Lasts.bind (j := 1) (k := 1) ((lasts_send _).mapError _) ?_
  intro response
  rcases contents response with e | ⟨keys, maxAge⟩
  · exact .done _ 1
  · exact (lasts_question .time).bind fun now => .done _ 0

/-- Why a fetch failed, by what its call was answered. -/
inductive Failed (url : String) : List Event → AuthError → Prop
  | unsendable {fault : TransportFault} (hr : Request.build .get url [] "" = .error fault) :
      Failed url [⟨.goAhead, some ()⟩] (fault.error.withCode .certificateFetchFailed)
  | stopped {fault : TransportFault} (hr : Request.build .get url [] "" = .error fault) :
      Failed url [⟨.goAhead, none⟩] (AuthError.cancelled.withCode .certificateFetchFailed)
  | cancelled {request : Request} (hr : Request.build .get url [] "" = .ok request) :
      Failed url [⟨.exchange request, none⟩]
        (AuthError.cancelled.withCode .certificateFetchFailed)
  | lost {request : Request} {outcome : Outcome} {fault : TransportFault}
      (hr : Request.build .get url [] "" = .ok request)
      (ho : request.received outcome = .error fault) :
      Failed url [⟨.exchange request, some outcome⟩]
        (fault.error.withCode .certificateFetchFailed)
  | useless {request : Request} {response : Response} {e : AuthError}
      (hr : Request.build .get url [] "" = .ok request) (hc : contents response = .error e) :
      Failed url [⟨.exchange request, some (.answered response)⟩] e

theorem Failed.code {url : String} {es : List Event} {e : AuthError} (h : Failed url es e) :
    e.code = .certificateFetchFailed := by
  cases h with
  | useless _ hc =>
    obtain ⟨message, rfl⟩ := certificateError_of_contents hc
    rfl
  | unsendable | stopped | cancelled | lost => rfl

theorem Failed.length {url : String} {es : List Event} {e : AuthError} (h : Failed url es e) :
    es.length = 1 := by
  cases h <;> rfl

/-- Where a fetch stands: what its call was answered, and what is left of it. -/
inductive Fetching (url : String) : List Event → Call KeySnapshot → Prop
  | sending {q : Question} {next : q.Answer → Call KeySnapshot} : Fetching url [] (.ask q next)
  | received {request : Request} {response : Response} {keys : List TrustedKey} {maxAge : Nat}
      {next : Int64 → Call KeySnapshot} (hr : Request.build .get url [] "" = .ok request)
      (hc : contents response = .ok (keys, maxAge)) :
      Fetching url [⟨.exchange request, some (.answered response)⟩] (.ask .time next)
  | failed {es : List Event} {e : AuthError} (h : Failed url es e) :
      Fetching url es (.done (.error e))
  | got {request : Request} {response : Response} {keys : List TrustedKey} {maxAge : Nat}
      {now : Int64} (hr : Request.build .get url [] "" = .ok request)
      (hc : contents response = .ok (keys, maxAge)) :
      Fetching url [⟨.exchange request, some (.answered response)⟩, ⟨.time, now⟩]
        (.done (.ok (KeySnapshot.ofKeys keys (expiry now maxAge))))

theorem Fetching.of_error {url : String} {es : List Event} {e : AuthError}
    (h : Fetching url es (.done (.error e))) : Failed url es e := by
  cases h with
  | failed h => exact h

theorem reaches_fetch {url : String} {m m' : Memory} {es : List Event} {r : Call KeySnapshot}
    (h : (fetch url).Reaches m es r m') : Fetching url es r ∧ m' = m := by
  -- An address that cannot be sent to takes another way through the fetch from the start.
  rcases hr : Request.build .get url [] "" with fault | request
  all_goals
    rw [fetch, Web.get, hr] at h
    rcases reaches_ask h with ⟨rfl, rfl, rfl⟩ | ⟨a, es, rfl, h₁⟩
    · exact ⟨.sending, rfl⟩
  · cases a with
    | none =>
      obtain ⟨rfl, rfl, rfl⟩ := reaches_done h₁
      exact ⟨.failed (.stopped hr), rfl⟩
    | some a =>
      obtain ⟨rfl, rfl, rfl⟩ := reaches_done h₁
      exact ⟨.failed (.unsendable hr), rfl⟩
  rcases a with _ | outcome
  · obtain ⟨rfl, rfl, rfl⟩ := reaches_done h₁
    exact ⟨.failed (.cancelled hr), rfl⟩
  cases outcome with
  | answered response =>
    have h₂ : (do
        let got ← contents response
        return KeySnapshot.ofKeys got.1 (expiry (← Call.now) got.2) :
          Call KeySnapshot).Reaches m es r m' := h₁
    rcases hc : contents response with e | ⟨keys, maxAge⟩
    all_goals rw [hc] at h₂
    · obtain ⟨rfl, rfl, rfl⟩ := reaches_done h₂
      exact ⟨.failed (.useless hr hc), rfl⟩
    rcases reaches_ask h₂ with ⟨rfl, rfl, rfl⟩ | ⟨now, es, rfl, h₃⟩
    · exact ⟨.received hr hc, rfl⟩
    obtain ⟨rfl, rfl, rfl⟩ := reaches_done h₃
    exact ⟨.got hr hc, rfl⟩
  | refused | timedOut | lost | truncated =>
    obtain ⟨rfl, rfl, rfl⟩ := reaches_done h₁
    exact ⟨.failed (.lost hr rfl), rfl⟩

/-! ## What the events tell -/

/-- The snapshot that a call fetched, if what it was answered amounts to one. Before its
request it read the clock to see whether it had to. -/
def fetched? : List Event → Option KeySnapshot
  | [⟨.time, _⟩, ⟨.exchange _, some (.answered response)⟩, ⟨.time, now⟩] =>
    match contents response with
    | .ok (keys, maxAge) => some (KeySnapshot.ofKeys keys (expiry now maxAge))
    | .error _ => none
  | _ => none

theorem fetched?_of_length {es : List Event} (h : es.length < 3) : fetched? es = none := by
  unfold fetched?
  split
  · exact absurd h (Nat.lt_irrefl 3)
  · rfl

theorem fetched?_of_unanswered {now : Int64} {es : List Event} (h : es.length ≤ 1) :
    fetched? (⟨.time, now⟩ :: es) = none :=
  fetched?_of_length (Nat.lt_succ_of_le (Nat.succ_le_succ h))

theorem fetched?_of_got {url : String} {es : List Event} {s : KeySnapshot} (now : Int64)
    (h : Fetching url es (.done (.ok s))) : fetched? (⟨.time, now⟩ :: es) = some s := by
  cases h with
  | got _ hc => simp only [fetched?, hc]

/-- The snapshots that were fetched, the first one first. -/
def fetches (events : List (Nat × Event)) : List KeySnapshot :=
  events.inits.filterMap fun told => told.getLast?.bind fun e => fetched? (own e.1 told)

theorem fetches_concat (es : List (Nat × Event)) (i : Nat) (e : Event) :
    fetches (es ++ [(i, e)]) = fetches es ++ (fetched? (own i es ++ [e])).toList := by
  have hinits : (es ++ [(i, e)]).inits = es.inits ++ [es ++ [(i, e)]] := by
    rw [List.inits_append]
    rfl
  rw [fetches, hinits, List.filterMap_append, ← fetches]
  simp only [List.filterMap_cons, List.filterMap_nil, List.getLast?_append, List.getLast?_singleton,
    Option.some_or, Option.bind_some, own_append, own_self]
  cases fetched? (own i es ++ [e]) <;> rfl

/-- Whatever counts as fetched was fetched by some call. -/
theorem mem_fetches {es : List (Nat × Event)} {s : KeySnapshot} (h : s ∈ fetches es) :
    ∃ i told, told <+: es ∧ fetched? (own i told) = some s := by
  obtain ⟨told, htold, hs⟩ := List.mem_filterMap.mp h
  obtain ⟨e, -, hs⟩ := Option.bind_eq_some_iff.mp hs
  exact ⟨e.1, told, (List.mem_inits told es).mp htold, hs⟩

/-- All of a fetched snapshot is from one answer, whose age is added to the time it was read
at, as far as times go. -/
theorem of_fetched {es : List Event} {s : KeySnapshot} (h : fetched? es = some s) :
    ∃ before request response keys maxAge now,
      es = [⟨.time, before⟩, ⟨.exchange request, some (.answered response)⟩, ⟨.time, now⟩] ∧
      response.isSuccess = true ∧ KeyDocument.read response.body = .ok keys ∧
      MaxAge.ofHeader (response.header? "cache-control") = .ok maxAge ∧
      s.keys = (KeySnapshot.ofKeys keys s.expiresAt).keys ∧
      s.expiresAt.toInt = min (now.toInt + min (maxAge : Int) (2 ^ 63 - 1)) (2 ^ 63 - 1) := by
  unfold fetched? at h
  split at h
  · rename_i before request response now
    rcases hc : contents response with e | ⟨keys, maxAge⟩
    all_goals
      rw [hc] at h
      cases h
    obtain ⟨hs, hk, hn⟩ := contents_eq_ok_iff.mp hc
    exact ⟨before, request, response, keys, maxAge, now, rfl, hs, hk, hn, rfl, expiry_toInt _ _⟩
  · cases h

end IdentityTokens.PublishedKeys
