import IdentityTokens.Proofs.Verifier.Decision

/-! # What it takes to be accepted

A token is accepted on evidence: its three segments, what they decode to, and the one key
that the header names, together with all that has to hold of them. A verifier that is no
emulator accepts exactly the tokens that there is evidence for. -/
namespace IdentityTokens

open Verifier

/-- All that speaks for a token, at a time and with what the key source answered. -/
structure Evidence (v : Verifier) (token : String) (now : Int64)
    (answer : Except AuthError KeySnapshot) where
  segments : Segments
  header : JwtHeader
  kid : String
  typed : IdToken
  members : List (String × Json)
  snapshot : KeySnapshot
  key : TrustedKey
  project : v.project ≠ ""
  joined : token = segments.header ++ "." ++ segments.payload ++ "." ++ segments.signature
  dotless : segments.Dotless
  readHeader : Segment.decode JwtHeader.form.decode segments.header = .ok header
  algorithm : header.algorithm = "RS256"
  keyId : header.keyId = some kid
  keyId_ne : kid ≠ ""
  readTyped : Segment.decode IdToken.decode segments.payload = .ok typed
  readMembers : Segment.decode Json.readObject segments.payload = .ok members
  audience : typed.audience = v.project
  issuer : typed.issuer = v.kind.issuerStart ++ v.project
  subject : 1 ≤ typed.subject.length ∧ typed.subject.length ≤ 128
  issued : typed.issuedAt.toInt - 300 ≤ now.toInt
  unexpired : now.toInt ≤ typed.expires.toInt + 300
  answered : answer = .ok snapshot
  named : snapshot.get? kid = some key
  signed : key.verifies token = true

/-- The token that is handed out: the user is the subject, and the claims are those that are
left once the standard ones were taken out. -/
def Evidence.verified {v : Verifier} {token : String} {now : Int64}
    {answer : Except AuthError KeySnapshot} (e : Evidence v token now answer) : IdToken :=
  { e.typed with
    uid := e.typed.subject
    claims := Json.swapEraseAll ["iss", "aud", "exp", "iat", "sub", "uid"] e.members }

namespace Attempt

variable {a : Attempt} {α : Type}

theorem refuse_eq_none {b : Bool} {r : Rejection} : a.refuse b r = none ↔ b = false := by
  cases b <;> simp [refuse]

theorem unread_eq_none {part : Except CodecError α} :
    a.unread part = none ↔ ∃ x, part = .ok x := by
  cases part <;> simp [unread]

/-- A token with two dots is read segment by segment. -/
theorem exists_split (h : a.failure? .segments = none) :
    ∃ s, Segments.split a.token = .ok s := by
  rw [failure?, refuse_eq_none] at h
  rcases Segments.split_cases a.token with ⟨-, hs⟩ | ⟨h2, -⟩
  · exact hs
  · simp [h2] at h

/-- Where a key source fails, the checks do not pass. -/
theorem exists_snapshot (he : a.verifier.emulator = false) (h : a.failure? .keys = none) :
    ∃ s, a.keys = .ok s := by
  rw [failure?, he] at h
  cases hk : a.keys with
  | error e => simp [hk] at h
  | ok s => exact ⟨s, rfl⟩

/-- The key that passes the signature check is the one that the header names. -/
theorem signature_passes_iff {h : JwtHeader} {kid : String} {s : KeySnapshot}
    (he : a.verifier.emulator = false) (hh : a.header = .ok h) (hkid : h.keyId = some kid)
    (hs : a.keys = .ok s) :
    a.failure? .signature = none ↔ ∃ key, s.get? kid = some key ∧ key.verifies a.token = true := by
  rw [failure?, he, hs, hh]
  simp only [onRead, hkid, Option.bind_some, refuse_eq_none, Bool.not_eq_false']
  cases s.get? kid <;> simp

/-- The checks that compare what was read. -/
theorem claims_pass_iff {h : JwtHeader} {t : IdToken} (he : a.verifier.emulator = false)
    (hh : a.header = .ok h) (ht : a.typed = .ok t) :
    a.Passes [.project, .algorithm, .audience, .issuer, .subject, .subjectLength, .issuedAt,
        .expiry] ↔
      a.verifier.project ≠ "" ∧ h.algorithm = "RS256" ∧ t.audience = a.verifier.project ∧
      t.issuer = a.verifier.kind.issuerStart ++ a.verifier.project ∧
      (1 ≤ t.subject.length ∧ t.subject.length ≤ 128) ∧
      t.issuedAt.toInt - 300 ≤ a.now.toInt ∧ a.now.toInt ≤ t.expires.toInt + 300 := by
  have hempty : t.subject ≠ "" ↔ 1 ≤ t.subject.length := by
    rw [ne_eq, ← String.length_eq_zero_iff]
    omega
  simp only [passes_cons, passes_nil, and_true, failure?, hh, ht, he, onRead, refuse_eq_none,
    decide_eq_false_iff_not, Decidable.not_not, Int.not_lt, Nat.not_lt, ne_eq, Bool.false_and,
    Bool.not_false, Bool.and_true]
  simp only [← ne_eq, hempty, and_assoc]

theorem evidence_of_passes (he : a.verifier.emulator = false) (hp : a.Passes Check.order)
    {h : JwtHeader} {t : IdToken} {m : List (String × Json)} (hh : a.header = .ok h)
    (ht : a.typed = .ok t) (hm : a.members = .ok m) :
    ∃ e : Evidence a.verifier a.token a.now a.keys, e.typed = t ∧ e.members = m := by
  have hc : ∀ c, a.failure? c = none := fun c => hp c (by cases c <;> decide)
  obtain ⟨hproject, halgorithm, haudience, hissuer, hsubject, hissued, hexpiry⟩ :=
    (claims_pass_iff he hh ht).mp fun c _ => hc c
  obtain ⟨s, hs⟩ := exists_split (hc .segments)
  obtain ⟨eh, et, em⟩ := readable_of_split hs
  obtain ⟨hj, hd⟩ := Segments.split_eq_ok_iff.mp hs
  obtain ⟨kid, hne, hkid⟩ := keyId_of_passes he hh ht (hc .keyId)
  obtain ⟨snapshot, hsnap⟩ := exists_snapshot he (hc .keys)
  obtain ⟨key, hkey, hv⟩ := (signature_passes_iff he hh hkid hsnap).mp (hc .signature)
  let e : Evidence a.verifier a.token a.now a.keys :=
    { segments := s, header := h, kid := kid, typed := t, members := m, snapshot := snapshot
      key := key, project := hproject, joined := hj, dotless := hd, readHeader := eh.symm.trans hh
      algorithm := halgorithm, keyId := hkid, keyId_ne := hne, readTyped := et.symm.trans ht
      readMembers := em.symm.trans hm, audience := haudience, issuer := hissuer, subject := hsubject
      issued := hissued, unexpired := hexpiry, answered := hsnap, named := hkey, signed := hv }
  exact ⟨e, rfl, rfl⟩

theorem passes_of_evidence (he : a.verifier.emulator = false)
    (e : Evidence a.verifier a.token a.now a.keys) :
    a.Passes Check.order ∧ a.header = .ok e.header ∧ a.typed = .ok e.typed ∧
      a.members = .ok e.members := by
  have hs : Segments.split a.token = .ok e.segments :=
    Segments.split_eq_ok_iff.mpr ⟨e.joined, e.dotless⟩
  obtain ⟨eh, et, em⟩ := readable_of_split hs
  have hh : a.header = .ok e.header := eh.trans e.readHeader
  have ht : a.typed = .ok e.typed := et.trans e.readTyped
  have hm : a.members = .ok e.members := em.trans e.readMembers
  refine ⟨?_, hh, ht, hm⟩
  intro c _
  have hclaims := (claims_pass_iff he hh ht).mpr
    ⟨e.project, e.algorithm, e.audience, e.issuer, e.subject, e.issued, e.unexpired⟩
  have hdots : a.token.toList.count '.' = 2 := by
    rcases Segments.split_cases a.token with ⟨h2, -⟩ | ⟨-, h⟩
    · exact h2
    · rw [hs] at h
      cases h
  cases c with
  | project | algorithm | audience | issuer | subject | subjectLength | issuedAt | expiry =>
    exact hclaims _ (by decide)
  | presence =>
    have hne : a.token ≠ "" := fun h => by simp [h] at hdots
    simpa [failure?, refuse_eq_none] using hne
  | segments => simp [failure?, refuse_eq_none, hdots]
  | header => exact unread_eq_none.mpr ⟨_, hh⟩
  | payload => exact unread_eq_none.mpr ⟨_, ht⟩
  | object => exact unread_eq_none.mpr ⟨_, hm⟩
  | keyId =>
    rw [failure?, hh, ht]
    simp [onRead, refuse_eq_none, e.keyId, e.keyId_ne]
  | keys => rw [failure?, he, e.answered]
  | signature =>
    exact (signature_passes_iff he hh e.keyId e.answered).mpr ⟨e.key, e.named, e.signed⟩

end Attempt

namespace Verifier

/-- **A verifier that is no emulator accepts exactly on evidence**, and hands out what the
evidence says. A token that gets as far as its signature names its key, and of any snapshot
the key stored under that name decides alone. -/
theorem verify_ok_iff_evidence (kind : Kind) (project : String) (keys : KeySource)
    (token : String) (outside : Outside) (w : World) :
    let v : Verifier := ⟨kind, project, false, keys⟩
    let answer := ((keys.keys kind).run outside (w.timed outside)).1
    (∀ t, ((v.verify token).run outside w).1 = .ok t ↔
      ∃ e : Evidence v token (w.clock outside) answer, t = e.verified) ∧
    (∀ header t, v.checkContent token = .ok (header, t) →
      ∃ kid, header.keyId? = some kid ∧
        ∀ s : KeySnapshot, isSigned s header.keyId? token =
          (s.get? kid).any (·.verifies token)) := by
  intro v answer
  let a : Attempt := Attempt.ofRun v token outside w
  have hd : a.Decided Check.order ((v.verify token).run outside w).1 :=
    (Attempt.made_ofRun v token outside w).run.1
  refine ⟨fun t => ⟨?_, ?_⟩, ?_⟩
  · intro h
    rw [h] at hd
    obtain ⟨header, hc⟩ := checkContent_of_verify v token outside w h
    obtain ⟨hh, typed, members, ht, hm, rfl⟩ := Attempt.checkContent_ok (a := a) hc
    obtain ⟨e, rfl, rfl⟩ := Attempt.evidence_of_passes (a := a) rfl hd hh ht hm
    exact ⟨e, rfl⟩
  · rintro ⟨e, he⟩
    obtain ⟨hp, hh, ht, hm⟩ := Attempt.passes_of_evidence (a := a) rfl e
    rcases hr : ((v.verify token).run outside w).1 with e' | t'
    · rw [hr] at hd
      exact absurd hp hd.not_passes
    · obtain ⟨header, hc⟩ := checkContent_of_verify v token outside w hr
      obtain ⟨-, typed, members, ht', hm', rfl⟩ := Attempt.checkContent_ok (a := a) hc
      obtain rfl : e.typed = typed := Except.ok.inj (ht.symm.trans ht')
      obtain rfl : e.members = members := Except.ok.inj (hm.symm.trans hm')
      rw [he]
      rfl
  · intro header t hc
    have hcd := Attempt.checkContent_decided (a := a)
    obtain ⟨hh, typed, members, ht, -⟩ := Attempt.checkContent_ok (a := a) hc
    rw [show a.verifier.checkContent a.token = .ok (header, t) from hc] at hcd
    obtain ⟨kid, hne, hkid⟩ := Attempt.keyId_of_passes (a := a) rfl hh ht (hcd .keyId (by decide))
    refine ⟨kid, Attempt.keyId?_eq hkid hne, ?_⟩
    intro s
    rw [Attempt.keyId?_eq hkid hne]
    rfl

end Verifier

end IdentityTokens
