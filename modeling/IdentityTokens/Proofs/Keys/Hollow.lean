import IdentityTokens.Proofs.Call.Alone
import IdentityTokens.Proofs.Keys.Installs
import IdentityTokens.Proofs.Verifier.Refusals

/-! # Answers without keys

An answer may count as a success, tell an age and name no keys at all. It is fetched like any
other: it takes the place of the keys that were kept, is handed out, and whoever verifies with
it takes the token for a bad one. Short of such an answer nothing empty is ever kept or handed
out, and a lack of keys is reported as what it is. -/
namespace IdentityTokens

namespace Json

theorem put_ne_nil {α : Type} (name : String) (v : α) (members : List (String × α)) :
    put name v members ≠ [] := by
  cases members with
  | nil => simp [put]
  | cons m rest =>
    rw [put]
    split <;> simp

theorem settleMembers_eq_nil_iff {α : Type} {members : List (String × α)} :
    settleMembers members = [] ↔ members = [] := by
  refine ⟨?_, fun h => by rw [h]; rfl⟩
  intro h
  rcases members.eq_nil_or_concat with rfl | ⟨front, m, rfl⟩
  · rfl
  · rw [settleMembers, List.concat_eq_append, List.foldl_append] at h
    exact absurd h (put_ne_nil _ _ _)

end Json

theorem KeySnapshot.isEmpty_ofKeys_iff {keys : List TrustedKey} {expiresAt : Int64} :
    (ofKeys keys expiresAt).isEmpty = true ↔ keys = [] := by
  simp [isEmpty, ofKeys, Json.settleMembers_eq_nil_iff]

theorem KeyCache.not_isEmpty_of_usable {c : KeyCache} {s : KeySnapshot}
    (h : c.usable? = some s) : s.isEmpty = false := by
  rw [usable?, Option.filter_eq_some_iff] at h
  simpa using h.2

namespace PublishedKeys

open Call Interleaving

/-- An answer that counts as a success and tells an age, and whose document has no members. -/
def Hollow (e : Event) : Prop :=
  ∃ request response maxAge, e = ⟨.exchange request, some (.answered response)⟩ ∧
    response.isSuccess = true ∧ KeyDocument.certificates response.body = .ok [] ∧
    MaxAge.ofHeader (response.header? "cache-control") = .ok maxAge

variable {kind : Kind} {url : String} {es : List Event} {s : KeySnapshot} {c : KeyCache}

theorem keysOf_eq_nil_iff {certificates : List (String × String)} :
    KeyDocument.keysOf certificates = .ok [] ↔ certificates = [] := by
  cases certificates with
  | nil => exact ⟨fun _ => rfl, fun _ => rfl⟩
  | cons c cs =>
    refine ⟨?_, nofun⟩
    intro h
    rw [KeyDocument.keysOf, List.mapM_cons] at h
    obtain ⟨k, -, h⟩ := ok_of_bind h
    obtain ⟨ks, -, h⟩ := ok_of_bind h
    cases h

theorem read_eq_nil_iff {body : Bytes} :
    KeyDocument.read body = .ok [] ↔ KeyDocument.certificates body = .ok [] := by
  rw [KeyDocument.read]
  rcases KeyDocument.certificates body with e | cs
  · constructor <;> intro h <;> cases h
  · change KeyDocument.keysOf cs = .ok [] ↔ _
    rw [keysOf_eq_nil_iff, Except.ok.injEq]

theorem hollow_iff {request : Request} {response : Response} {keys : List TrustedKey}
    {maxAge : Nat} (hc : contents response = .ok (keys, maxAge)) :
    Hollow ⟨.exchange request, some (.answered response)⟩ ↔ keys = [] := by
  obtain ⟨hs, hk, hn⟩ := contents_eq_ok_iff.mp hc
  constructor
  · rintro ⟨_, _, _, he, -, hempty, -⟩
    cases he
    rw [read_eq_nil_iff.mpr hempty] at hk
    exact (Except.ok.inj hk).symm
  · rintro rfl
    exact ⟨request, response, maxAge, rfl, hs, read_eq_nil_iff.mp hk, hn⟩

theorem not_hollow_of_error {request : Request} {response : Response} {e : AuthError}
    (hc : contents response = .error e) :
    ¬ Hollow ⟨.exchange request, some (.answered response)⟩ := by
  rintro ⟨_, _, maxAge, he, hs, hempty, hn⟩
  cases he
  have hok : contents response = .ok ([], maxAge) :=
    contents_eq_ok_iff.mpr ⟨hs, read_eq_nil_iff.mpr hempty, hn⟩
  rw [hc] at hok
  cases hok

theorem not_hollow_of_time {now : Int64} : ¬ Hollow ⟨.time, now⟩ := by
  rintro ⟨_, _, _, he, -⟩
  cases he

theorem Hollow.not_interrupts {e : Event} (h : Hollow e) : e.interrupts = false := by
  obtain ⟨_, _, _, rfl, -⟩ := h
  rfl

/-! ## What one call hands out -/

theorem Failed.not_hollow {e : AuthError} (h : Failed url es e) : ∀ e ∈ es, ¬ Hollow e := by
  intro e he
  cases h with
  | useless _ hc =>
    cases List.mem_singleton.mp he
    exact not_hollow_of_error hc
  | lost _ ho =>
    cases List.mem_singleton.mp he
    rintro ⟨_, _, _, heq, -⟩
    cases heq
    cases ho
  | unsendable | stopped | cancelled =>
    cases List.mem_singleton.mp he
    rintro ⟨_, _, _, heq, -⟩
    cases heq

theorem isEmpty_iff_hollow_of_fetched (h : fetched? es = some s) :
    s.isEmpty = true ↔ ∃ e ∈ es, Hollow e := by
  obtain ⟨before, request, response, keys, maxAge, now, rfl, hs, hk, hn, hkeys, -⟩ := of_fetched h
  have hc : contents response = .ok (keys, maxAge) := contents_eq_ok_iff.mpr ⟨hs, hk, hn⟩
  have hempty : s.isEmpty = true ↔ keys = [] := by
    rw [KeySnapshot.isEmpty, hkeys, ← KeySnapshot.isEmpty]
    exact KeySnapshot.isEmpty_ofKeys_iff
  have hhollow : Hollow ⟨.exchange request, some (.answered response)⟩ ↔ keys = [] :=
    hollow_iff hc
  rw [hempty, ← hhollow]
  simp [not_hollow_of_time]

/-- **A call hands out no keys exactly if its own request was answered with none.** -/
theorem Served.isEmpty_iff_hollow (h : Served url c es (.ok s)) :
    s.isEmpty = true ↔ ∃ e ∈ es, Hollow e := by
  cases h with
  | fresh h =>
    obtain ⟨-, hne, -⟩ := KeyCache.fresh?_eq_some_iff.mp h
    simp [hne, not_hollow_of_time]
  | fetched _ hs => exact isEmpty_iff_hollow_of_fetched (fetched?_of_got _ hs)
  | stale _ he hs =>
    have hne : s.isEmpty = false := KeyCache.not_isEmpty_of_usable hs
    have hno := he.not_hollow
    simp only [hne, Bool.false_eq_true, List.mem_cons, exists_eq_or_imp, not_hollow_of_time,
      false_or, false_iff, not_exists, not_and]
    exact hno

/-- A call whose request was answered with no keys hands out none. -/
theorem Served.of_hollow {x : Except AuthError KeySnapshot} (h : Served url c es x)
    (hollow : ∃ e ∈ es, Hollow e) : ∃ s, x = .ok s ∧ s.isEmpty = true := by
  rcases x with e | s
  · cases h with
    | failed _ he =>
      obtain ⟨f, hf, hh⟩ := hollow
      rcases List.mem_cons.mp hf with rfl | hf
      · exact absurd hh not_hollow_of_time
      · exact absurd hh (he.not_hollow f hf)
  · exact ⟨s, rfl, h.isEmpty_iff_hollow.mpr hollow⟩

/-! ## A call on its own -/

/-- What a source answers, whatever it remembers: no keys exactly if it was told of none. -/
theorem run_keys (kind : Kind) (url : String) (outside : Outside) (w : World) :
    ∃ told, ((keys kind url).run outside w).2.events = w.events ++ told ∧
      ((∃ e ∈ told, Hollow e) ↔
        ∃ s, ((keys kind url).run outside w).1 = .ok s ∧ s.isEmpty = true) := by
  rw [keys_eq_behind, run_behind]
  split
  · exact ⟨[], (List.append_nil _).symm, by simp⟩
  obtain ⟨answers, told, hr, he, ht⟩ := reaches_run (session_gateless kind url) outside w
  have hserved := (reaches_session hr).served_of_done
  have hsame : (∃ e ∈ told, Hollow e) ↔ ∃ e ∈ answers, Hollow e := by
    constructor
    · rintro ⟨e, he, hh⟩
      exact ⟨e, ht.sublist.subset he, hh⟩
    · rintro ⟨e, he, hh⟩
      exact ⟨e, ht.missing e he hh.not_interrupts, hh⟩
  refine ⟨told, he, hsame.trans ⟨hserved.of_hollow, ?_⟩⟩
  rintro ⟨s, hs, hempty⟩
  rw [hs] at hserved
  exact hserved.isEmpty_iff_hollow.mp hempty

end PublishedKeys

/-! ## Verifying with keys that are not there -/

namespace Attempt

variable {a : Attempt} {α : Type}

/-- The first check that fails decides. -/
theorem Decided.eq_of_first {cs ds : List Check} {c : Check} {r : Except AuthError α}
    {e : AuthError} (h : a.Decided (cs ++ c :: ds) r) (hp : a.Passes cs)
    (hc : a.failure? c = some e) : r = .error e := by
  rcases r with e' | x
  · have hfirst : (cs ++ c :: ds).findSome? a.failure? = some e' := h
    rw [List.findSome?_append, hp.findSome_eq_none, Option.none_or, List.findSome?_cons,
      hc] at hfirst
    exact congrArg Except.error (Option.some.inj hfirst).symm
  · have hpass : a.failure? c = none := h c (by simp)
    rw [hc] at hpass
    cases hpass

theorem failure?_keys_of_error {cause : AuthError} (he : a.verifier.emulator = false)
    (hk : a.keys = .error cause) :
    a.failure? .keys = some (cause.withCode .certificateFetchFailed) := by
  rw [failure?, he, hk]

theorem failure?_keys_of_ok {s : KeySnapshot} (hk : a.keys = .ok s) :
    a.failure? .keys = none := by
  rw [failure?, hk]
  cases a.verifier.emulator <;> rfl

theorem failure?_signature_of_isEmpty {s : KeySnapshot} (he : a.verifier.emulator = false)
    (hp : a.Passes Check.beforeKeys) (hs : a.keys = .ok s) (hempty : s.isEmpty = true) :
    a.failure? .signature = some (Rejection.signature.error a.verifier.kind) := by
  have hread : a.unread a.header = none := hp .header (by decide)
  have hkeys : s.keys = [] := List.isEmpty_iff.mp hempty
  rw [failure?, he, hs]
  rcases hh : a.header with e | h
  · rw [hh] at hread
    cases hread
  · have hnone : h.keyId.bind s.get? = none := by
      cases h.keyId <;> simp [KeySnapshot.get?, hkeys]
    simp [onRead, refuse, hnone]

end Attempt

namespace PublishedKeys

open Call Interleaving

/-- What holds of published keys that are not there. -/
structure EmptyOnlyIfHollow (kind : Kind) (url : String) : Prop where
  /-- Whoever takes turns with whom, a call hands out no keys exactly if it was told of none. -/
  handsOut : ∀ n ts i s, (runs (keys kind url) n ts).result? i = some (.ok s) →
    (s.isEmpty = true ↔ ∃ e ∈ own i (runs (keys kind url) n ts).events, Hollow e)
  /-- Keys that are kept give way to other keys only, unless somebody was told of none. -/
  keeps : ∀ n pre post s, ((runs (keys kind url) n pre).memory.keys kind).latest = some s →
    s.isEmpty = false →
    (∀ i, ∀ e ∈ own i (runs (keys kind url) n (pre ++ post)).events, ¬ Hollow e) →
    ∃ s', ((runs (keys kind url) n (pre ++ post)).memory.keys kind).latest = some s' ∧
      s'.isEmpty = false
  /-- A token that passes all checks up to its keys is refused for want of keys, and not as a
  bad token, exactly if nobody told of none. -/
  fails : ∀ (v : Verifier) token outside w, v.kind = kind → v.keys = .published url →
    v.emulator = false → (Attempt.ofRun v token outside w).Passes Check.beforeKeys →
    (∀ s, ((keys kind url).run outside (w.timed outside)).1 = .ok s → s.isEmpty = true) →
    ∃ e told, ((v.verify token).run outside w).1 = .error e ∧
      ((v.verify token).run outside w).2.events = w.events ++ told ∧
      (e.code = .certificateFetchFailed ↔ ¬ ∃ e ∈ told, Hollow e) ∧
      (e.code = kind.invalidCode ↔ ∃ e ∈ told, Hollow e)

/-- **Nothing empty is handed out or kept, and no token is called bad for want of keys, unless
the address answered with a document that has none.** -/
theorem emptyOnlyIfHollow (kind : Kind) (url : String) : EmptyOnlyIfHollow kind url where
  handsOut n ts i s hs := by
    have hlt : i < (runs (keys kind url) n ts).calls.length := by
      rw [length_runs]
      exact lt_of_result? hs
    rcases (sessions_runs kind url n ts).stand i hlt with hu | ⟨found, hv⟩
    · rcases hu.result? with hr | hr <;> rw [hr] at hs <;> cases hs
    · obtain ⟨m, hr⟩ := hv.of_result? hs
      exact (reaches_session hr).served_of_done.isEmpty_iff_hollow
  keeps n pre post s hs hne hno := by
    rw [runs_append] at hno ⊢
    refine latest_run (sessions_runs kind url n pre) post ?_ hs hne
    intro i es snapshot htold hf
    rw [← Bool.not_eq_true, isEmpty_iff_hollow_of_fetched hf]
    rintro ⟨e, he, hh⟩
    exact hno i e (htold.subset he) hh
  fails v token outside w hkind hkeys he hp hempty := by
    subst hkind
    obtain ⟨hd, hw⟩ := (Attempt.made_ofRun v token outside w).run
    have hsource : v.keys.keys v.kind = keys v.kind url := by rw [hkeys]; rfl
    -- Past the content and the times, all that is left to ask is the source.
    have hreached : ((v.verify token).run outside w).2 =
        ((keys v.kind url).run outside (w.timed outside)).2 := by
      change ((v.verify token).run outside w).2 =
        (Attempt.ofRun v token outside w).reached outside w at hw
      rw [hw, Attempt.reached, if_pos (Attempt.passes_append.mp hp).1, if_pos ⟨he, hp⟩]
      change ((v.keys.keys v.kind).run outside _).2 = _
      rw [hsource]
    obtain ⟨told, htold, hhollow⟩ := run_keys v.kind url outside (w.timed outside)
    have hclock : (∃ e ∈ ⟨.time, w.clock outside⟩ :: told, Hollow e) ↔ ∃ e ∈ told, Hollow e := by
      simp [not_hollow_of_time]
    have hevents : ((v.verify token).run outside w).2.events =
        w.events ++ ⟨.time, w.clock outside⟩ :: told := by
      rw [hreached, htold, World.timed, World.add, List.append_assoc, List.singleton_append]
    have hanswer : (Attempt.ofRun v token outside w).keys =
        ((keys v.kind url).run outside (w.timed outside)).1 := by
      rw [Attempt.ofRun, hsource]
    rcases hk : ((keys v.kind url).run outside (w.timed outside)).1 with cause | s
    all_goals rw [hk] at hanswer
    · have hno : ¬ ∃ e ∈ told, Hollow e := by
        rw [hhollow, hk]
        rintro ⟨s, hs, -⟩
        cases hs
      have hlacking : (Attempt.ofRun v token outside w).failure? .keys =
          some (cause.withCode .certificateFetchFailed) :=
        Attempt.failure?_keys_of_error he hanswer
      have hd : (Attempt.ofRun v token outside w).Decided
          (Check.beforeKeys ++ .keys :: [.signature]) ((v.verify token).run outside w).1 := hd
      refine ⟨_, _, hd.eq_of_first hp hlacking, hevents, ?_, ?_⟩
      · exact iff_of_true rfl (hclock.not.mpr hno)
      · exact iff_of_false (Ne.symm v.kind.invalidCode_ne_certificateFetchFailed)
          (hclock.not.mpr hno)
    · have hsome : ∃ e ∈ told, Hollow e := hhollow.mpr ⟨s, hk, hempty s hk⟩
      have hpass : (Attempt.ofRun v token outside w).Passes (Check.beforeKeys ++ [.keys]) :=
        Attempt.passes_append.mpr ⟨hp, by simp [Attempt.failure?_keys_of_ok hanswer]⟩
      have hbad : (Attempt.ofRun v token outside w).failure? .signature =
          some (Rejection.signature.error v.kind) :=
        Attempt.failure?_signature_of_isEmpty he hp hanswer (hempty s hk)
      have hd : (Attempt.ofRun v token outside w).Decided
          (Check.beforeKeys ++ [.keys] ++ .signature :: []) ((v.verify token).run outside w).1 := hd
      refine ⟨_, _, hd.eq_of_first hpass hbad, hevents, ?_, ?_⟩
      · exact iff_of_false v.kind.invalidCode_ne_certificateFetchFailed
          (not_not_intro (hclock.mpr hsome))
      · exact iff_of_true rfl (hclock.mpr hsome)

/-- A world in which the clock stands, every request comes to the same and the callers have no
collaborators of their own. -/
def alike (now : Int64) (outcome : Option Outcome) : (q : Question) → q.Answer
  | .goAhead => some ()
  | .time => now
  | .exchange _ => outcome
  | .file _ => none
  | .accessToken => .error .cancelled
  | .trustedKeys _ => .error .cancelled
  | .userState _ => .error .cancelled
  | .signerEmail => .error .cancelled
  | .signature _ => .error .cancelled

/-- A document without members, to be kept for a minute. -/
def hollowOutcome : Outcome :=
  .answered ⟨200, [("cache-control", Text.bytes "max-age=60")], Text.bytes "\x7b\x7d"⟩

/-- A token for the user `u` of the project `p` that says all it has to, with a signature that
no key verifies. -/
def plainToken : String :=
  "eyJhbGciOiJSUzI1NiIsImtpZCI6ImsifQ.eyJpc3MiOiJodHRwczovL3NlY3VyZXRva2VuLmdvb2dsZS5jb20vcCIs" ++
    "ImF1ZCI6InAiLCJpYXQiOjEsImV4cCI6OSwic3ViIjoidSJ9.eA"

def plainVerifier : Verifier := ⟨.idToken, "p", false, .published "http://certs.test/"⟩

/-- At the time 5 no keys are handed out, they take the place of a key that was due, and a token
that passes all checks before its keys is called bad. -/
theorem hollow_displaces_and_blames :
    (runs (keys .idToken "http://certs.test/") 1
      (List.replicate 7 ⟨0, false, alike 5 hollowOutcome⟩)).result? 0 = some (.ok ⟨[], 65⟩) ∧
    ((keys .idToken "http://certs.test/").run (fun _ => alike 5 hollowOutcome)
      (.start (Memory.empty.replaceKeys .idToken ⟨[⟨"k", none⟩], 5⟩) false)).2.memory =
      ⟨⟨some ⟨[], 65⟩, 2⟩, .empty, none⟩ ∧
    (Attempt.ofRun plainVerifier plainToken (fun _ => alike 5 hollowOutcome)
      (.start .empty false)).Passes Check.beforeKeys ∧
    (((plainVerifier.verify plainToken).run (fun _ => alike 5 hollowOutcome)
      (.start .empty false)).1.map fun _ => ()) = .error (Rejection.signature.error .idToken) := by
  refine ⟨?_, ?_, ?_, ?_⟩ <;> decide +kernel

end PublishedKeys

end IdentityTokens
