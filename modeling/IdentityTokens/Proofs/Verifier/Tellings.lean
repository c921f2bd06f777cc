import IdentityTokens.Proofs.Call.Tellings
import IdentityTokens.Proofs.Verifier.Refusals

/-! # Verifying among others

However others change the memory meanwhile, a verification ends as its checks decide, for the time
it was told and for what its source of keys ended with. What it was told tells how far it got. -/
namespace IdentityTokens

open Verifier Call

namespace Attempt

variable {a : Attempt} {e : AuthError}

/-- What a verification was told: nothing where the content was refused, the time, and after it
what its source of keys was told. -/
inductive Heard (a : Attempt) : List Event → Prop
  | nothing (hc : ¬ a.Passes Check.ofContent) : Heard a []
  | time (hc : a.Passes Check.ofContent)
      (ht : a.verifier.emulator = true ∨ ¬ a.Passes Check.beforeKeys) :
      Heard a [⟨.time, a.now⟩]
  | keys {es : List Event} (he : a.verifier.emulator = false) (hp : a.Passes Check.beforeKeys)
      (hk : (a.verifier.keys.keys a.verifier.kind).Ends es a.keys) :
      Heard a (⟨.time, a.now⟩ :: es)

theorem passes_beforeKeys_of_first (h : a.first? = some .keys) : a.Passes Check.beforeKeys := by
  rw [first?, Check.order, List.find?_append] at h
  rcases hfind : Check.beforeKeys.find? fun c => (a.failure? c).isSome with _ | c
  · intro c hc
    simpa using List.find?_eq_none.mp hfind c hc
  · rw [hfind, Option.some_or] at h
    cases h
    exact absurd (List.mem_of_find?_eq_some hfind) (by decide)

/-- Where the keys are the first to fail, their source was asked and failed. -/
theorem Heard.keys_of_first {told : List Event} (h : a.Heard told)
    (hfirst : a.first? = some .keys) (hf : a.failure? .keys = some e) :
    ∃ es cause, told = ⟨.time, a.now⟩ :: es ∧ e = cause.withCode .certificateFetchFailed ∧
      (a.verifier.keys.keys a.verifier.kind).Ends es (.error cause) := by
  have hbefore := passes_beforeKeys_of_first hfirst
  obtain ⟨cause, hcause, rfl⟩ := keys_error hf
  cases h with
  | nothing hc => exact absurd (passes_append.mp hbefore).1 hc
  | time hc ht =>
    rcases ht with he | hp
    · rw [failure?, he] at hf
      cases hf
    · exact absurd hbefore hp
  | keys he hp hk =>
    rw [hcause] at hk
    exact ⟨_, cause, rfl, rfl, hk⟩

end Attempt

namespace Verifier

open Attempt

variable {v : Verifier} {token : String} {told : List Event} {r : Except AuthError IdToken}

/-- What is left to do for a token whose content passes. -/
theorem verify_of_content {header : JwtHeader} {t : IdToken}
    (hc : v.checkContent token = .ok (header, t)) :
    v.verify token = Call.now >>= fun now => Call.done (v.reject (checkTimes now t)) >>= fun _ =>
      if v.emulator then Call.ok t else v.checkSignature header token >>= fun _ => Call.ok t := by
  rw [verify, hc]
  cases v.emulator <;> rfl

/-- The check of the signature comes after its source of keys, and is told no more. -/
theorem of_ends_checkSignature {header : JwtHeader} {t : IdToken}
    (h : (v.checkSignature header token >>= fun _ => Call.ok t).Ends told r) :
    ∃ got, (v.keys.keys v.kind).Ends told got ∧ r = match got with
      | .error e => .error (e.withCode .certificateFetchFailed)
      | .ok s => if isSigned s header.keyId? token then .ok t
        else .error (Rejection.signature.error v.kind) := by
  obtain ⟨x, _, _, rfl, hx, hy⟩ := Ends.of_onResult h
  obtain ⟨y, _, _, rfl, hz, hx⟩ := Ends.of_onResult hx
  obtain ⟨got, es, _, rfl, hgot, hz⟩ := Ends.of_onResult hz
  obtain ⟨rfl, rfl⟩ := ends_done.mp hz
  cases got with
  | error e =>
    obtain ⟨rfl, rfl⟩ := ends_done.mp hx
    obtain ⟨rfl, rfl⟩ := ends_done.mp hy
    exact ⟨.error e, by simpa using hgot, rfl⟩
  | ok s =>
    change (if isSigned s header.keyId? token then Call.ok () else
      Call.fail (Rejection.signature.error v.kind)).Ends _ x at hx
    refine ⟨.ok s, ?_⟩
    by_cases hsigned : isSigned s header.keyId? token = true
    · rw [if_pos hsigned] at hx
      obtain ⟨rfl, rfl⟩ := ends_done.mp hx
      obtain ⟨rfl, rfl⟩ := ends_done.mp hy
      exact ⟨by simpa using hgot, (if_pos hsigned).symm⟩
    · rw [if_neg hsigned] at hx
      obtain ⟨rfl, rfl⟩ := ends_done.mp hx
      obtain ⟨rfl, rfl⟩ := ends_done.mp hy
      exact ⟨by simpa using hgot, (if_neg hsigned).symm⟩

/-- **A verification ends as its checks decide.** -/
theorem attempt_of_ends (h : (v.verify token).Ends told r) :
    ∃ a : Attempt, a.verifier = v ∧ a.token = token ∧ a.Heard told ∧ a.Decided Check.order r := by
  rcases hcc : v.checkContent token with rejection | ⟨header, t⟩
  · rw [verify_of_refused hcc] at h
    obtain ⟨rfl, rfl⟩ := ends_done.mp h
    let a : Attempt := ⟨v, token, 0, .error .cancelled⟩
    have hc : a.Decided Check.ofContent (a.verifier.reject (a.verifier.checkContent a.token)) :=
      checkContent_decided
    rw [show a.verifier.checkContent a.token = .error rejection from hcc] at hc
    have hb : a.Decided Check.beforeKeys
        (.error (rejection.error v.kind) : Except AuthError IdToken) :=
      hc.append_of_error _
    exact ⟨a, rfl, rfl, .nothing hc.not_passes, hb.append_of_error _⟩
  rw [verify_of_content hcc] at h
  rcases h.of_bind with ⟨e, -, he⟩ | ⟨now, fs, gs, rfl, hnow, hrest⟩
  · obtain ⟨now, -, ⟨⟩⟩ := ends_now he
  obtain ⟨now, rfl, ⟨⟩⟩ := ends_now hnow
  -- Whatever the keys will be, so much is settled.
  have hcontent (got : Except AuthError KeySnapshot) :
      (Attempt.mk v token now got).Passes Check.ofContent := by
    have hc : (Attempt.mk v token now got).Decided Check.ofContent
        (v.reject (v.checkContent token)) :=
      checkContent_decided
    rw [hcc] at hc
    exact hc
  have hread (got : Except AuthError KeySnapshot) :=
    checkContent_ok (a := ⟨v, token, now, got⟩) hcc
  have htimes (got : Except AuthError KeySnapshot) :
      (Attempt.mk v token now got).Decided [.issuedAt, .expiry] (v.reject (checkTimes now t)) := by
    obtain ⟨-, typed, members, ht, -, rfl⟩ := hread got
    exact checkTimes_decided (a := ⟨v, token, now, got⟩) ht rfl rfl
  rcases hct : checkTimes now t with rejection | ⟨⟩
  all_goals rw [hct] at hrest htimes
  · obtain ⟨rfl, rfl⟩ := ends_done.mp hrest
    have hb : (Attempt.mk v token now (.error .cancelled)).Decided Check.beforeKeys
        (.error (rejection.error v.kind) : Except AuthError IdToken) :=
      Decided.append (hcontent _) (htimes _)
    exact ⟨_, rfl, rfl, .time (hcontent _) (.inr hb.not_passes), hb.append_of_error _⟩
  have hbefore (got : Except AuthError KeySnapshot) :
      (Attempt.mk v token now got).Passes Check.beforeKeys :=
    passes_append.mpr ⟨hcontent got, htimes got⟩
  have hend : (if v.emulator then Call.ok t else
      v.checkSignature header token >>= fun _ => Call.ok t).Ends gs r := hrest
  split at hend
  · rename_i he
    obtain ⟨rfl, rfl⟩ := ends_done.mp hend
    refine ⟨⟨v, token, now, .error .cancelled⟩, rfl, rfl, .time (hcontent _) (.inl he), ?_⟩
    refine Decided.append (hbefore _) (Decided.pass ?_ (Decided.pass ?_ (Decided.nil t)))
    · rw [failure?, he]
    · rw [failure?, he]
  · rename_i hreal
    have he : v.emulator = false := Bool.eq_false_iff.mpr hreal
    obtain ⟨got, hgot, rfl⟩ := of_ends_checkSignature hend
    refine ⟨⟨v, token, now, got⟩, rfl, rfl, .keys he (hbefore got) hgot, ?_⟩
    obtain ⟨hh, typed, members, ht, -, -⟩ := hread got
    obtain ⟨kid, hne, hkid⟩ := keyId_of_passes he hh ht (hcontent got .keyId (by decide))
    cases got with
    | error e =>
      refine Decided.append (hbefore _) (Decided.fail ?_)
      rw [failure?, he]
    | ok s => exact Decided.append (hbefore _) (signing_decided he hh rfl hkid hne)

end Verifier

end IdentityTokens
