import IdentityTokens.Proofs.Verifier.Checks

/-! # The verifier is decided by its checks

Each step of the verifier is decided by the checks that belong to it: reading the parts,
looking at the header, at the claims, and at the times. Put together, a run is decided by
all checks in order, and what it asks is settled with them: nothing unless the content
passes, the clock alone unless the times pass too, and then the key source, once. -/
namespace IdentityTokens

open Verifier Call

namespace Attempt

variable {a : Attempt}

/-! ## The content -/

theorem readable_of_split {s : Segments} (hs : Segments.split a.token = .ok s) :
    a.header = s.readHeader ∧ a.typed = s.readPayload IdToken.decode ∧
      a.members = s.readPayload Json.readObject := by
  rw [header, typed, members, hs]
  exact ⟨rfl, rfl, rfl⟩

theorem parts_decided : a.Decided [.presence, .segments, .header, .payload, .object]
    (a.verifier.reject (parts a.token)) := by
  refine Decided.guard rfl decide_eq_true_iff fun _ => ?_
  rcases Segments.split_cases a.token with ⟨h2, s, hs⟩ | ⟨h2, hs⟩
  · obtain ⟨hh, ht, hm⟩ := readable_of_split hs
    rw [hs]
    refine Decided.pass (by simp [failure?, refuse, h2]) ?_
    change a.Decided _ (a.verifier.reject (codec s.readHeader >>= _))
    refine Decided.part (by rw [failure?, hh]) fun header _ => ?_
    refine Decided.part (by rw [failure?, ht]) fun typed _ => ?_
    refine Decided.part (by rw [failure?, hm]) fun members _ => ?_
    exact Decided.nil _
  · rw [hs]
    exact Decided.fail (by simp [failure?, refuse, h2])

theorem of_codec {α : Type} {part : Except CodecError α} {x : α} (h : codec part = .ok x) :
    part = .ok x := by
  cases part with
  | error e => cases h
  | ok y => exact congrArg Except.ok (Except.ok.inj h)

theorem parts_ok {p : Parts} (h : parts a.token = .ok p) :
    a.header = .ok p.header ∧ a.typed = .ok p.token ∧ a.members = .ok p.claims := by
  rw [parts] at h
  split at h
  · cases h
  obtain ⟨s, hs, h⟩ := ok_of_bind h
  obtain ⟨header, hh, h⟩ := ok_of_bind h
  obtain ⟨typed, ht, h⟩ := ok_of_bind h
  obtain ⟨members, hm, h⟩ := ok_of_bind h
  cases h
  obtain ⟨eh, et, em⟩ := readable_of_split (of_codec hs)
  exact ⟨eh.trans (of_codec hh), et.trans (of_codec ht), em.trans (of_codec hm)⟩

theorem keyId?_isNone_iff (h : JwtHeader) : h.keyId?.isNone ↔ h.keyId.getD "" = "" := by
  rw [JwtHeader.keyId?]
  rcases h.keyId with _ | kid
  · simp
  · by_cases hk : kid = "" <;> simp [hk]

theorem checkSigned_decided {h : JwtHeader} {t : IdToken} (he : a.verifier.emulator = false)
    (hh : a.header = .ok h) (ht : a.typed = .ok t) :
    a.Decided [.keyId, .algorithm] (a.verifier.reject (checkSigned h t)) := by
  refine Decided.guard (by rw [failure?, hh, ht]; rfl) ?_ fun _ => ?_
  · simp [he, ← keyId?_isNone_iff]
  refine Decided.guard (by rw [failure?, hh, he]; rfl) ?_ fun _ => Decided.nil _
  simp [JwtHeader.rs256]

theorem checkEmulated_decided {h : JwtHeader} {t : IdToken} (he : a.verifier.emulator = true)
    (hh : a.header = .ok h) (ht : a.typed = .ok t) :
    a.Decided [.keyId, .algorithm] (a.verifier.reject (checkEmulated h)) := by
  refine Decided.pass (by rw [failure?, hh, ht, he]; rfl) ?_
  refine Decided.guard (by rw [failure?, hh, he]; rfl) ?_ fun _ => Decided.nil _
  simp [JwtHeader.rs256, JwtHeader.unsigned]

theorem checkClaims_decided {t : IdToken} (ht : a.typed = .ok t) :
    a.Decided [.audience, .issuer, .subject, .subjectLength]
      (a.verifier.reject (a.verifier.checkClaims t)) := by
  refine Decided.guard (by rw [failure?, ht]; rfl) decide_eq_true_iff fun _ => ?_
  refine Decided.guard (by rw [failure?, ht]; rfl) decide_eq_true_iff fun _ => ?_
  refine Decided.guard (by rw [failure?, ht]; rfl) decide_eq_true_iff fun _ => ?_
  refine Decided.guard (by rw [failure?, ht]; rfl) decide_eq_true_iff fun _ => ?_
  exact Decided.nil _

theorem checkContent_decided :
    a.Decided Check.ofContent (a.verifier.reject (a.verifier.checkContent a.token)) := by
  refine Decided.guard rfl decide_eq_true_iff fun _ => ?_
  refine Decided.bind parts_decided fun p hp => ?_
  obtain ⟨hh, ht, _⟩ := parts_ok hp
  have hclaims : a.Decided [.audience, .issuer, .subject, .subjectLength]
      (a.verifier.reject (a.verifier.checkClaims p.token >>= fun _ => .ok (p.header, p.settled))) :=
    Decided.bind (checkClaims_decided ht) fun _ _ => Decided.nil _
  split
  · rename_i he
    exact Decided.bind (checkEmulated_decided he hh ht) fun _ _ => hclaims
  · rename_i he
    exact Decided.bind (checkSigned_decided (by simpa using he) hh ht) fun _ _ => hclaims

theorem checkContent_ok {h : JwtHeader} {t : IdToken}
    (hc : a.verifier.checkContent a.token = .ok (h, t)) :
    a.header = .ok h ∧ ∃ typed members, a.typed = .ok typed ∧ a.members = .ok members ∧
      t = (Parts.mk h typed members).settled := by
  rw [checkContent] at hc
  split at hc
  · cases hc
  obtain ⟨p, hp, hc⟩ := ok_of_bind hc
  obtain ⟨hh, ht, hm⟩ := parts_ok hp
  have hs : (p.header, p.settled) = (h, t) := by
    split at hc <;>
    · obtain ⟨_, _, hc⟩ := ok_of_bind hc
      obtain ⟨_, _, hc⟩ := ok_of_bind hc
      exact Except.ok.inj hc
  cases hs
  exact ⟨hh, p.token, p.claims, ht, hm, rfl⟩

theorem checkTimes_decided {typed : IdToken} (ht : a.typed = .ok typed) {t : IdToken}
    (hi : t.issuedAt = typed.issuedAt) (hx : t.expires = typed.expires) :
    a.Decided [.issuedAt, .expiry] (a.verifier.reject (checkTimes a.now t)) := by
  have hlo : -2 ^ 63 ≤ typed.expires.toInt := typed.expires.le_toInt
  have hhi : typed.issuedAt.toInt < 2 ^ 63 := typed.issuedAt.toInt_lt
  rw [checkTimes, hi, hx, skew]
  refine Decided.guard (by rw [failure?, ht]; rfl) ?_ fun _ => ?_
  · rw [lt_clamp_iff (by omega)]
    exact decide_eq_true_iff
  refine Decided.guard (by rw [failure?, ht]; rfl) ?_ fun _ => Decided.nil _
  rw [clamp_lt_iff (by omega)]
  exact decide_eq_true_iff

/-! ## The signature -/

/-- A checked header names a key. -/
theorem keyId_of_passes {h : JwtHeader} {t : IdToken}
    (he : a.verifier.emulator = false) (hh : a.header = .ok h) (ht : a.typed = .ok t)
    (hp : a.failure? .keyId = none) : ∃ kid, kid ≠ "" ∧ h.keyId = some kid := by
  rw [failure?, hh, ht, he] at hp
  rcases hk : h.keyId with _ | kid
  · simp [onRead, refuse, hk] at hp
  · refine ⟨kid, ?_, rfl⟩
    rintro rfl
    simp [onRead, refuse, hk] at hp

theorem keyId?_eq {h : JwtHeader} {kid : String} (hk : h.keyId = some kid) (hne : kid ≠ "") :
    h.keyId? = some kid := by
  simp [JwtHeader.keyId?, hk, hne]

theorem signing_decided {h : JwtHeader} {t : IdToken} {s : KeySnapshot}
    {kid : String} (he : a.verifier.emulator = false) (hh : a.header = .ok h)
    (hs : a.keys = .ok s) (hk : h.keyId = some kid) (hne : kid ≠ "") :
    a.Decided [.keys, .signature]
      (if isSigned s h.keyId? a.token then .ok t
        else .error (Rejection.signature.error a.verifier.kind) : Except AuthError IdToken) := by
  refine Decided.pass (by rw [failure?, he, hs]) ?_
  have hf : a.failure? .signature =
      a.refuse (!(s.get? kid).any (·.verifies a.token)) .signature := by
    rw [failure?, he, hs, hh]
    simp only [onRead, hk, Option.bind_some]
  rw [keyId?_eq hk hne, isSigned]
  cases hv : (s.get? kid).any (·.verifies a.token) with
  | true => exact Decided.pass (by rw [hf, hv]; rfl) (Decided.nil t)
  | false => exact Decided.fail (by rw [hf, hv]; rfl)

end Attempt

/-! ## The run -/

namespace Verifier

variable (v : Verifier) (token : String) (outside : Outside) (w : World)

theorem run_keySnapshot :
    v.keySnapshot.run outside w =
      (((v.keys.keys v.kind).run outside w).1.mapError (·.withCode .certificateFetchFailed),
        ((v.keys.keys v.kind).run outside w).2) :=
  run_mapError _ _

theorem run_checkSignature (h : JwtHeader) :
    (v.checkSignature h token).run outside w =
      match (v.keys.keys v.kind).run outside w with
      | (.error e, w') => (.error (e.withCode .certificateFetchFailed), w')
      | (.ok s, w') =>
        (if isSigned s h.keyId? token then .ok ()
          else .error (Rejection.signature.error v.kind), w') := by
  rw [checkSignature, run_bind, run_keySnapshot]
  rcases (v.keys.keys v.kind).run outside w with ⟨_ | s, w'⟩
  · rfl
  · change ((if isSigned s h.keyId? token then return () else
      Call.fail (Rejection.signature.error v.kind) : Call Unit).run outside w') = _
    dsimp only
    split <;> rfl

variable {v token} in
/-- A token whose content is refused is refused without a question. -/
theorem verify_of_refused {r : Rejection} (hr : v.checkContent token = .error r) :
    v.verify token = Call.fail (r.error v.kind) := by
  rw [verify, hr]
  rfl

variable {token} in
/-- The parts come from the first two segments. -/
theorem parts_of_split {s : Segments} (hs : Segments.split token = .ok s) :
    parts token =
      codec s.readHeader >>= fun h =>
        codec (s.readPayload IdToken.decode) >>= fun t =>
          codec (s.readPayload Json.readObject) >>= fun claims => .ok ⟨h, t, claims⟩ := by
  have hne : token ≠ "" := by
    rintro rfl
    cases hs
  rw [parts, if_neg hne, hs]
  rfl

variable {v token} in
theorem checkContent_of_unread {r : Rejection} (hproject : v.project ≠ "")
    (hp : parts token = .error r) : v.checkContent token = .error r := by
  rw [checkContent, if_neg hproject, hp]
  rfl

variable {v token} in
theorem checkContent_of_parts {p : Parts} (hproject : v.project ≠ "")
    (hp : parts token = .ok p) :
    v.checkContent token =
      (if v.emulator then checkEmulated p.header else checkSigned p.header p.token) >>= fun _ =>
        v.checkClaims p.token >>= fun _ => .ok (p.header, p.settled) := by
  rw [checkContent, if_neg hproject, hp]
  cases he : v.emulator <;> simp [bind, Except.bind]

theorem reject_ok {α : Type} (a : α) : v.reject (.ok a) = .ok a := rfl

theorem reject_error {α : Type} (r : Rejection) :
    v.reject (.error r : Except Rejection α) = .error (r.error v.kind) := rfl

theorem run_verify :
    (v.verify token).run outside w =
      match v.checkContent token with
      | .error r => (.error (r.error v.kind), w)
      | .ok (header, t) =>
        match checkTimes (w.clock outside) t with
        | .error r => (.error (r.error v.kind), w.timed outside)
        | .ok () =>
          if v.emulator then (.ok t, w.timed outside)
          else
            match (v.keys.keys v.kind).run outside (w.timed outside) with
            | (.error e, w') => (.error (e.withCode .certificateFetchFailed), w')
            | (.ok s, w') =>
              (if isSigned s header.keyId? token then .ok t
                else .error (Rejection.signature.error v.kind), w') := by
  rcases hc : v.checkContent token with r | ⟨header, t⟩
  · simp only [verify, hc]
    rfl
  · simp only [verify, hc]
    rw [run_bind, run_lift, reject_ok]
    dsimp only
    rw [run_bind, run_now]
    dsimp only
    rw [run_bind, run_lift]
    rcases checkTimes (w.clock outside) t with r | ⟨⟩
    · rfl
    · rcases v.emulator with _ | _
      · change ((v.checkSignature header token >>= fun _ => pure t).run outside _) = _
        rw [run_bind, run_checkSignature]
        rcases (v.keys.keys v.kind).run outside (w.timed outside) with ⟨_ | s, w'⟩
        · rfl
        · cases h : isSigned s header.keyId? token <;> simp [h]
      · rfl

/-- What a run hands out is what the content check settled on. -/
theorem checkContent_of_verify {t : IdToken}
    (h : ((v.verify token).run outside w).1 = .ok t) :
    ∃ header, v.checkContent token = .ok (header, t) := by
  rw [run_verify] at h
  rcases hc : v.checkContent token with r | ⟨header, t'⟩
  all_goals
    rw [hc] at h
    dsimp only at h
  · cases h
  have ht : t' = t := by
    split at h
    · cases h
    · split at h
      · exact Except.ok.inj h
      · split at h
        · cases h
        · dsimp only at h
          split at h
          · exact Except.ok.inj h
          · cases h
  exact ⟨header, ht ▸ rfl⟩

end Verifier

namespace Attempt

/-- The attempt is the one that a run of the verifier makes in a world. -/
structure Made (a : Attempt) (outside : Outside) (w : World) : Prop where
  now : a.now = w.clock outside
  keys : a.keys = ((a.verifier.keys.keys a.verifier.kind).run outside (w.timed outside)).1

/-- What a run of a verifier on a token attempts. -/
def ofRun (v : Verifier) (token : String) (outside : Outside) (w : World) : Attempt :=
  ⟨v, token, w.clock outside, ((v.keys.keys v.kind).run outside (w.timed outside)).1⟩

theorem made_ofRun (v : Verifier) (token : String) (outside : Outside) (w : World) :
    (ofRun v token outside w).Made outside w := ⟨rfl, rfl⟩

/-- How far a run of the verifier gets: where it was, with the clock read, or with the key
source asked once. -/
def reached (a : Attempt) (outside : Outside) (w : World) : World :=
  if a.Passes Check.ofContent then
    if a.verifier.emulator = false ∧ a.Passes Check.beforeKeys then
      ((a.verifier.keys.keys a.verifier.kind).run outside (w.timed outside)).2
    else w.timed outside
  else w

theorem Made.run {a : Attempt} {outside : Outside} {w : World} (hm : a.Made outside w) :
    a.Decided Check.order ((a.verifier.verify a.token).run outside w).1 ∧
      ((a.verifier.verify a.token).run outside w).2 = a.reached outside w := by
  have hc : a.Decided Check.ofContent (a.verifier.reject (a.verifier.checkContent a.token)) :=
    checkContent_decided
  rw [run_verify, reached]
  rcases hcc : a.verifier.checkContent a.token with r | ⟨h, t⟩
  · rw [hcc] at hc
    have hb : a.Decided Check.beforeKeys
        (.error (r.error a.verifier.kind) : Except AuthError IdToken) :=
      hc.append_of_error _
    exact ⟨hb.append_of_error _, (if_neg hc.not_passes).symm⟩
  obtain ⟨hh, typed, members, ht, -, rfl⟩ := checkContent_ok hcc
  have hct : a.Decided [.issuedAt, .expiry]
      (a.verifier.reject (checkTimes a.now (Parts.mk h typed members).settled)) :=
    checkTimes_decided ht rfl rfl
  rw [hcc] at hc
  replace hc : a.Passes Check.ofContent := hc
  rw [if_pos hc, ← hm.now]
  dsimp only
  rcases hr : checkTimes a.now (Parts.mk h typed members).settled with r | ⟨⟩
  · rw [hr] at hct
    have hb : a.Decided Check.beforeKeys
        (.error (r.error a.verifier.kind) : Except AuthError IdToken) :=
      Decided.append hc hct
    exact ⟨hb.append_of_error _, (if_neg fun hp => hb.not_passes hp.2).symm⟩
  rw [hr] at hct
  have hb : a.Passes Check.beforeKeys := passes_append.mpr ⟨hc, hct⟩
  dsimp only
  rcases he : a.verifier.emulator with _ | _
  · rw [if_neg Bool.false_ne_true, if_pos ⟨rfl, hb⟩]
    obtain ⟨kid, hne, hkid⟩ := keyId_of_passes he hh ht (hc .keyId (by decide))
    have hs := hm.keys
    rcases hk : (a.verifier.keys.keys a.verifier.kind).run outside (w.timed outside)
      with ⟨e | s, w'⟩
    all_goals rw [hk] at hs
    · refine ⟨Decided.append hb (Decided.fail ?_), rfl⟩
      rw [failure?, hs, he]
    · exact ⟨Decided.append hb (signing_decided he hh hs hkid hne), rfl⟩
  · rw [if_pos rfl, if_neg fun hf => Bool.noConfusion hf.1]
    refine ⟨Decided.append hb (Decided.pass ?_ (Decided.pass ?_ (Decided.nil _))), rfl⟩
    · rw [failure?, he]
    · rw [failure?, he]

end Attempt

end IdentityTokens
