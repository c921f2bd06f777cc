import IdentityTokens.Proofs.Call.Runs
import IdentityTokens.Proofs.Segments
import IdentityTokens.Proofs.Times
import IdentityTokens.Verifier

/-! # A verification as a list of checks

The verifier decides in nested steps: some read a part of the token, some look at what
was read, and the last ones ask the clock and the key source. Here each check stands on
its own, as a question about the token, the time and the keys alone, and `Check.order`
puts the checks in a row. A result is `Decided` by a row of checks if it fails exactly
as the first of them that fails and succeeds if none does. That is closed under
sequencing, so each step of the verifier has one lemma and a run is put together from
them. -/
namespace IdentityTokens

open Verifier

inductive Check where
  | project
  | presence
  | segments
  | header
  | payload
  | object
  | keyId
  | algorithm
  | audience
  | issuer
  | subject
  | subjectLength
  | issuedAt
  | expiry
  | keys
  | signature
deriving DecidableEq, Repr

namespace Check

/-- The checks that need nothing but the token. -/
def ofContent : List Check :=
  [project, presence, segments, header, payload, object, keyId, algorithm, audience, issuer,
    subject, subjectLength]

/-- The checks before the key source may be asked. -/
def beforeKeys : List Check := ofContent ++ [issuedAt, expiry]

/-- All checks, the first one first. -/
def order : List Check := beforeKeys ++ [keys, signature]

end Check

/-- All that a verification depends on: besides the token, what the clock shows when it
is read and what the key source says when it is asked. -/
structure Attempt where
  verifier : Verifier
  token : String
  now : Int64
  keys : Except AuthError KeySnapshot

namespace Attempt

variable (a : Attempt) {α β : Type}

def header : Except CodecError JwtHeader := do (← Segments.split a.token).readHeader

def typed : Except CodecError IdToken := do
  (← Segments.split a.token).readPayload IdToken.decode

def members : Except CodecError (List (String × Json)) := do
  (← Segments.split a.token).readPayload Json.readObject

def refuse (fails : Bool) (r : Rejection) : Option AuthError :=
  if fails then some (r.error a.verifier.kind) else none

def unread (part : Except CodecError α) : Option AuthError :=
  match part with
  | .error e => some ((Rejection.codec e).error a.verifier.kind)
  | .ok _ => none

/-- A part that cannot be read gives later checks nothing to refuse. -/
def onRead (part : Except CodecError α) (check : α → Option AuthError) : Option AuthError :=
  match part with
  | .error _ => none
  | .ok v => check v

/-- The error of a check, if the check fails. -/
def failure? : Check → Option AuthError
  | .project => a.refuse (a.verifier.project = "") .noProject
  | .presence => a.refuse (a.token = "") .emptyToken
  | .segments => a.refuse (a.token.toList.count '.' ≠ 2) (.codec .segments)
  | .header => a.unread a.header
  | .payload => a.unread a.typed
  | .object => a.unread a.members
  | .keyId =>
    onRead a.header fun h => onRead a.typed fun t =>
      a.refuse (!a.verifier.emulator && h.keyId.getD "" = "")
        (if t.audience = CustomToken.usualAudience then .customToken else .noKeyId)
  | .algorithm =>
    onRead a.header fun h =>
      a.refuse (h.algorithm ≠ "RS256" && !(a.verifier.emulator && h.algorithm = "none"))
        (.algorithm a.verifier.emulator h.algorithm)
  | .audience =>
    onRead a.typed fun t =>
      a.refuse (t.audience ≠ a.verifier.project) (.audience a.verifier.project t.audience)
  | .issuer =>
    let issuer := a.verifier.kind.issuerStart ++ a.verifier.project
    onRead a.typed fun t => a.refuse (t.issuer ≠ issuer) (.issuer issuer t.issuer)
  | .subject => onRead a.typed fun t => a.refuse (t.subject = "") .emptySubject
  | .subjectLength => onRead a.typed fun t => a.refuse (128 < t.subject.length) .longSubject
  | .issuedAt =>
    onRead a.typed fun t =>
      a.refuse (a.now.toInt < t.issuedAt.toInt - 300) (.issuedInFuture t.issuedAt)
  | .expiry =>
    onRead a.typed fun t => a.refuse (t.expires.toInt + 300 < a.now.toInt) (.expired t.expires)
  | .keys =>
    match a.verifier.emulator, a.keys with
    | false, .error e => some (e.withCode .certificateFetchFailed)
    | _, _ => none
  | .signature =>
    match a.verifier.emulator, a.keys with
    | false, .ok s =>
      onRead a.header fun h =>
        a.refuse (!(h.keyId.bind s.get?).any (·.verifies a.token)) .signature
    | _, _ => none

def Passes (cs : List Check) : Prop := ∀ c ∈ cs, a.failure? c = none

instance (cs : List Check) : Decidable (a.Passes cs) :=
  inferInstanceAs (Decidable (∀ c ∈ cs, a.failure? c = none))

/-- The check that fails while all checks before it pass. -/
def first? : Option Check := Check.order.find? fun c => (a.failure? c).isSome

/-- The result fails as the first failing check does, and succeeds if none fails. -/
def Decided (cs : List Check) : Except AuthError α → Prop
  | .error e => cs.findSome? a.failure? = some e
  | .ok _ => a.Passes cs

variable {a}

@[simp] theorem passes_nil : a.Passes [] := fun _ h => absurd h List.not_mem_nil

@[simp] theorem passes_cons {c : Check} {cs : List Check} :
    a.Passes (c :: cs) ↔ a.failure? c = none ∧ a.Passes cs := List.forall_mem_cons

theorem passes_append {cs ds : List Check} :
    a.Passes (cs ++ ds) ↔ a.Passes cs ∧ a.Passes ds := List.forall_mem_append

theorem Passes.findSome_eq_none {cs : List Check} (h : a.Passes cs) :
    cs.findSome? a.failure? = none :=
  List.findSome?_eq_none_iff.mpr h

theorem findSome?_failure (cs : List Check) :
    cs.findSome? a.failure? =
      (cs.find? fun c => (a.failure? c).isSome).bind a.failure? := by
  induction cs with
  | nil => rfl
  | cons c cs ih =>
    rw [List.findSome?_cons, List.find?_cons]
    cases hc : a.failure? c with
    | none => exact ih
    | some e => exact hc.symm

namespace Decided

theorem not_passes {cs : List Check} {e : AuthError}
    (h : a.Decided cs (.error e : Except AuthError α)) : ¬a.Passes cs := by
  intro hp
  rw [Decided, hp.findSome_eq_none] at h
  cases h

/-- The errors of a run are those of the first check that fails. -/
theorem error_iff {r : Except AuthError α} (h : a.Decided Check.order r) {e : AuthError} :
    r = .error e ↔ ∃ c, a.first? = some c ∧ a.failure? c = some e := by
  rw [← Option.bind_eq_some_iff, first?, ← findSome?_failure]
  cases r with
  | error e' =>
    rw [show Check.order.findSome? a.failure? = some e' from h]
    exact ⟨fun he => congrArg some (Except.error.inj he),
      fun he => congrArg Except.error (Option.some.inj he)⟩
  | ok x =>
    rw [Passes.findSome_eq_none h]
    exact ⟨nofun, nofun⟩

theorem nil (x : α) : a.Decided [] (.ok x) := passes_nil

theorem append {cs ds : List Check} {r : Except AuthError β} (hc : a.Passes cs)
    (hr : a.Decided ds r) : a.Decided (cs ++ ds) r := by
  cases r with
  | error e =>
    change (cs ++ ds).findSome? a.failure? = some e
    rw [List.findSome?_append, hc.findSome_eq_none, Option.none_or]
    exact hr
  | ok x => exact passes_append.mpr ⟨hc, hr⟩

theorem append_of_error {cs : List Check} {e : AuthError}
    (h : a.Decided cs (.error e : Except AuthError α)) (ds : List Check) :
    a.Decided (cs ++ ds) (.error e : Except AuthError β) := by
  change (cs ++ ds).findSome? a.failure? = some e
  rw [List.findSome?_append, show cs.findSome? a.failure? = some e from h, Option.some_or]

theorem pass {c : Check} {cs : List Check} {r : Except AuthError α} (hc : a.failure? c = none)
    (hr : a.Decided cs r) : a.Decided (c :: cs) r := by
  have hp : a.Passes [c] := passes_cons.mpr ⟨hc, passes_nil⟩
  exact append hp hr

theorem fail {c : Check} {cs : List Check} {e : AuthError} (hc : a.failure? c = some e) :
    a.Decided (c :: cs) (.error e : Except AuthError α) := by
  change (c :: cs).findSome? a.failure? = some e
  rw [List.findSome?_cons, hc]

/-- A condition that refuses the token, in front of the rest. -/
theorem guard {c : Check} {cs : List Check} {b : Bool} {fails : Prop} [Decidable fails]
    {r : Rejection} {rest : Except Rejection α} (hc : a.failure? c = a.refuse b r)
    (hb : b = true ↔ fails) (hr : ¬fails → a.Decided cs (a.verifier.reject rest)) :
    a.Decided (c :: cs) (a.verifier.reject (if fails then .error r else rest)) := by
  by_cases h : fails
  · rw [if_pos h]
    exact fail (by rw [hc, refuse, if_pos (hb.mpr h)])
  · rw [if_neg h]
    exact pass (by rw [hc, refuse, if_neg (fun hf => h (hb.mp hf))]) (hr h)

/-- A part that has to be read, in front of what is done with it. -/
theorem part {c : Check} {cs : List Check} {part : Except CodecError α}
    {rest : α → Except Rejection β} (hc : a.failure? c = a.unread part)
    (hr : ∀ x, part = .ok x → a.Decided cs (a.verifier.reject (rest x))) :
    a.Decided (c :: cs) (a.verifier.reject (codec part >>= rest)) := by
  cases part with
  | error e => exact fail hc
  | ok x => exact pass hc (hr x rfl)

/-- One step of the verifier after another. -/
theorem bind {cs ds : List Check} {r : Except Rejection α} {f : α → Except Rejection β}
    (hr : a.Decided cs (a.verifier.reject r))
    (hf : ∀ x, r = .ok x → a.Decided ds (a.verifier.reject (f x))) :
    a.Decided (cs ++ ds) (a.verifier.reject (r >>= f)) := by
  cases r with
  | error e => exact append_of_error hr ds
  | ok x => exact append hr (hf x rfl)

end Decided

end Attempt

end IdentityTokens
