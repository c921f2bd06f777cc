import IdentityTokens.Proofs.Verifier.Decision

/-! # Which error a verification ends with

The code of an error tells which check failed first, as far as callers may know: an
expiry and a key source without keys have codes of their own, and all other checks share
the code for invalid tokens. -/
namespace IdentityTokens

namespace Kind

theorem expiredCode_ne_invalidCode (kind : Kind) : kind.expiredCode ≠ kind.invalidCode := by
  cases kind <;> decide

theorem expiredCode_ne_certificateFetchFailed (kind : Kind) :
    kind.expiredCode ≠ .certificateFetchFailed := by
  cases kind <;> decide

theorem invalidCode_ne_certificateFetchFailed (kind : Kind) :
    kind.invalidCode ≠ .certificateFetchFailed := by
  cases kind <;> decide

end Kind

namespace Attempt

variable {a : Attempt} {α : Type} {e : AuthError}

/-- The error is what the token is refused with for something else than its age. -/
def Refuses (a : Attempt) (e : AuthError) : Prop :=
  e.code = a.verifier.kind.invalidCode ∧ e.category = .invalidArgument

theorem eq_of_refuse {b : Bool} {r : Rejection} (h : a.refuse b r = some e) :
    e = r.error a.verifier.kind := by
  rw [refuse] at h
  split at h
  · exact (Option.some.inj h).symm
  · cases h

theorem of_onRead {part : Except CodecError α} {check : α → Option AuthError}
    (h : onRead part check = some e) : ∃ x, part = .ok x ∧ check x = some e := by
  cases part with
  | error _ => cases h
  | ok x => exact ⟨x, rfl, h⟩

theorem refuses_of_refuse {b : Bool} {r : Rejection}
    (hr : r.code a.verifier.kind = a.verifier.kind.invalidCode) (h : a.refuse b r = some e) :
    a.Refuses e := by
  rw [eq_of_refuse h]
  exact ⟨hr, rfl⟩

theorem refuses_of_unread {part : Except CodecError α} (h : a.unread part = some e) :
    a.Refuses e := by
  cases part with
  | error c =>
    cases h
    exact ⟨rfl, rfl⟩
  | ok _ => cases h

theorem expiry_error (h : a.failure? .expiry = some e) :
    e.code = a.verifier.kind.expiredCode ∧ e.category = .invalidArgument := by
  obtain ⟨t, -, h⟩ := of_onRead h
  rw [eq_of_refuse h]
  exact ⟨rfl, rfl⟩

/-- What the key source said is handed on under another code. -/
theorem keys_error (h : a.failure? .keys = some e) :
    ∃ cause, a.keys = .error cause ∧ e = cause.withCode .certificateFetchFailed := by
  rw [failure?] at h
  split at h
  · rename_i cause _ hk
    exact ⟨cause, hk, (Option.some.inj h).symm⟩
  · cases h

theorem other_error {c : Check} (h : a.failure? c = some e) (hx : c ≠ .expiry)
    (hk : c ≠ .keys) : a.Refuses e := by
  cases c with
  | project | presence | segments => exact refuses_of_refuse rfl h
  | header | payload | object => exact refuses_of_unread h
  | keyId =>
    obtain ⟨_, _, h⟩ := of_onRead h
    obtain ⟨_, _, h⟩ := of_onRead h
    exact refuses_of_refuse (by split <;> rfl) h
  | algorithm | audience | issuer | subject | subjectLength | issuedAt =>
    obtain ⟨_, _, h⟩ := of_onRead h
    exact refuses_of_refuse rfl h
  | expiry => exact absurd rfl hx
  | keys => exact absurd rfl hk
  | signature =>
    rw [failure?] at h
    split at h
    · obtain ⟨_, _, h⟩ := of_onRead h
      exact refuses_of_refuse rfl h
    · cases h

end Attempt

namespace Verifier

/-- **A verification ends with the error of the first check that fails**, under the code
for expired tokens exactly at the expiry, under the code for certificates exactly where
the key source failed, whose category and message stay, and under the code for invalid
tokens everywhere else. It reads the clock once the content passes, and asks the key source
once, if it is no emulator and all checks before pass; short of that it asks nothing. -/
theorem verify_fails_at_first_check (v : Verifier) (token : String) (outside : Outside)
    (w : World) :
    let a := Attempt.ofRun v token outside w
    let asked := (v.keys.keys v.kind).run outside (w.timed outside)
    let got := (v.verify token).run outside w
    (∀ e, got.1 = .error e ↔ ∃ c, a.first? = some c ∧ a.failure? c = some e) ∧
    (∀ e, got.1 = .error e →
      (e.code = v.kind.expiredCode ↔ a.first? = some .expiry) ∧
      (e.code = .certificateFetchFailed ↔ a.first? = some .keys) ∧
      (a.first? = some .keys → ∃ cause, asked.1 = .error cause ∧
        e.category = cause.category ∧ e.message = cause.message ∧ e.parent = cause.parent) ∧
      (a.first? ≠ some .expiry → a.first? ≠ some .keys →
        e.code = v.kind.invalidCode ∧ e.category = .invalidArgument)) ∧
    got.2 =
      if a.Passes Check.ofContent then
        if v.emulator = false ∧ a.Passes Check.beforeKeys then asked.2 else w.timed outside
      else w := by
  intro a asked got
  obtain ⟨hd, hw⟩ := (Attempt.made_ofRun v token outside w).run
  refine ⟨fun e => hd.error_iff, ?_, hw⟩
  intro e he
  obtain ⟨c, hc, hf⟩ := hd.error_iff.mp he
  change a.first? = some c at hc
  rw [hc]
  by_cases hx : c = .expiry
  · subst hx
    have hcode : e.code = v.kind.expiredCode := (Attempt.expiry_error hf).1
    refine ⟨by simp [hcode], ?_, by simp, by simp⟩
    simp [hcode, v.kind.expiredCode_ne_certificateFetchFailed]
  by_cases hk : c = .keys
  · subst hk
    obtain ⟨cause, hcause, rfl⟩ := Attempt.keys_error hf
    refine ⟨?_, by simp [AuthError.withCode], fun _ => ⟨cause, hcause, rfl, rfl, rfl⟩, by simp⟩
    simp [AuthError.withCode, Ne.symm v.kind.expiredCode_ne_certificateFetchFailed]
  · obtain ⟨hcode, hcat⟩ := Attempt.other_error hf hx hk
    replace hcode : e.code = v.kind.invalidCode := hcode
    refine ⟨?_, ?_, by simp [hk], fun _ _ => ⟨hcode, hcat⟩⟩
    · simp [hcode, hx, Ne.symm v.kind.expiredCode_ne_invalidCode]
    · simp [hcode, hk, v.kind.invalidCode_ne_certificateFetchFailed]

end Verifier

end IdentityTokens
