import IdentityTokens.Proofs.Call.Endings
import IdentityTokens.Proofs.Keys.Fetches
import IdentityTokens.Users.Revocation
import IdentityTokens.Keys.Source

/-! # What goes wrong on the way

Keys and users are asked for while a token is verified, and that may fail for reasons that have
nothing to do with the token: a request comes to nothing, an answer makes no sense, a user is not
known, or the call is cancelled. None of these errors has a code that speaks of tokens. -/
namespace IdentityTokens

open Call

/-- The error tells of what was asked for on the way. -/
structure AuthError.Incidental (e : AuthError) : Prop where
  parent : e.parent = none
  code : e.code = .unknown ∨ e.code = .certificateFetchFailed ∨ e.code = .userNotFound

namespace AuthError

variable {e : AuthError}

theorem incidental_unknown (message : String) : (unknown message).Incidental := ⟨rfl, .inl rfl⟩

theorem incidental_cancelled : cancelled.Incidental := ⟨rfl, .inl rfl⟩

theorem incidental_certificateError (message : String) :
    (certificateError message).Incidental := ⟨rfl, .inr (.inl rfl)⟩

theorem Incidental.certificateFetchFailed (h : e.Incidental) :
    (e.withCode .certificateFetchFailed).Incidental := ⟨h.parent, .inr (.inl rfl)⟩

theorem incidental_transport (fault : TransportFault) : fault.error.Incidental := by
  cases fault <;> exact ⟨rfl, .inl rfl⟩

theorem incidental_platform (status : Nat) (body : Bytes) :
    (ofPlatformResponse status body).Incidental := ⟨rfl, .inl rfl⟩

end AuthError

open AuthError

theorem Web.incidental_send (built : Except TransportFault Request) :
    (Web.send built).OnlyFails Incidental := by
  cases built with
  | error fault =>
    exact ((onlyFails_question _).bind (onlyFails_given incidental_cancelled)).bind fun _ =>
      onlyFails_fail (incidental_transport fault)
  | ok request =>
    refine ((onlyFails_question _).bind (onlyFails_given incidental_cancelled)).bind fun outcome =>
      onlyFails_done fun e he => ?_
    rcases hr : request.received outcome with fault | response
    all_goals
      rw [hr] at he
      cases he
    exact incidental_transport fault

/-- Posting fails for no other reason, unless the token for it is asked for. -/
theorem Web.incidental_post {bearer : Bearer} (h : bearer ≠ .custom) (url : String)
    (body : Json) : (Web.post bearer url body).OnlyFails Incidental := by
  refine OnlyFails.bind ?_ fun token => incidental_send _
  cases bearer with
  | nobody => exact onlyFails_ok _
  | fixed token => exact onlyFails_ok _
  | custom => exact absurd rfl h

/-! ## Keys -/

theorem PublishedKeys.incidental_contents {response : Response} {e : AuthError}
    (h : contents response = .error e) : e.Incidental := by
  obtain ⟨message, rfl⟩ := certificateError_of_contents h
  exact incidental_certificateError message

theorem PublishedKeys.incidental_keys (kind : Kind) (url : String) :
    (PublishedKeys.keys kind url).OnlyFails Incidental := by
  have hfetch : (fetch url).OnlyFails Incidental := by
    refine ((Web.incidental_send _).mapError fun e => Incidental.certificateFetchFailed).bind
      fun response => OnlyFails.bind (onlyFails_done fun e => incidental_contents) fun _ => ?_
    exact (onlyFails_question _).bind fun _ => onlyFails_ok _
  refine OnlyFails.behind incidental_cancelled (onlyFails_memory.bind fun m =>
    (onlyFails_question _).bind fun now => ?_)
  split
  · exact onlyFails_ok _
  -- A fetch that fails is no failure yet, as long as there are keys from before.
  refine hfetch.attempt (fun s => (onlyFails_remember _).bind fun _ => onlyFails_ok s) fun e he =>
    onlyFails_memory.bind fun m' => ?_
  split
  · exact onlyFails_ok _
  · exact onlyFails_fail he

theorem StoredKeys.incidental_keys (kind : Kind) (path : String) :
    (StoredKeys.keys kind path).OnlyFails Incidental := by
  have hread : (StoredKeys.read path).OnlyFails Incidental := by
    refine ((onlyFails_question _).bind (onlyFails_given incidental_cancelled)).bind fun r => ?_
    cases r with
    | error f => exact onlyFails_fail (incidental_certificateError _)
    | ok b =>
      refine OnlyFails.bind (onlyFails_done fun e he => ?_) fun _ => onlyFails_ok _
      obtain ⟨message, rfl⟩ := PublishedKeys.certificateError_of_read he
      exact incidental_certificateError message
  refine ((onlyFails_question _).bind (onlyFails_given incidental_cancelled)).bind fun _ =>
    onlyFails_memory.bind fun m => ?_
  split
  · exact onlyFails_ok _
  refine OnlyFails.behind incidental_cancelled (onlyFails_memory.bind fun m' => ?_)
  split
  · exact onlyFails_ok _
  · exact hread.bind fun s => (onlyFails_remember _).bind fun _ => onlyFails_ok s

/-- **A source of keys that the caller did not bring along says nothing of tokens.** -/
theorem KeySource.incidental_keys {source : KeySource} (h : source ≠ .custom) (kind : Kind) :
    (source.keys kind).OnlyFails Incidental := by
  cases source with
  | fixed s => exact onlyFails_ok s
  | published url => exact PublishedKeys.incidental_keys kind url
  | stored path => exact StoredKeys.incidental_keys kind path
  | custom => exact absurd rfl h

/-! ## Users -/

theorem UserLookup.incidental_stateOf {uid : String} {response : Response} {e : AuthError}
    (h : stateOf uid response = .error e) : e.Incidental := by
  have hstate {u : User} (hu : u.state = .error e) : e.Incidental := by
    unfold User.state User.validFrom at hu
    split at hu
    · cases hu
    · split at hu
      all_goals cases hu
      exact incidental_unknown _
  rw [stateOf] at h
  cases hs : response.isSuccess with
  | false =>
    rw [hs] at h
    cases h
    exact incidental_platform _ _
  | true =>
    rw [hs] at h
    rcases error_of_bind h with hdecode | ⟨users, -, h⟩
    · rcases hform : answerForm.decode response.body with fault | users
      all_goals
        rw [hform] at hdecode
        cases hdecode
      exact incidental_unknown _
    · cases users with
      | nil =>
        cases h
        exact ⟨rfl, .inr (.inr rfl)⟩
      | cons u us => exact hstate h

/-- **Neither does who looks users up.** -/
theorem UserLookup.incidental_state {l : UserLookup} (h : l.bearer ≠ .custom) (uid : String) :
    (l.state uid).OnlyFails Incidental :=
  (Web.incidental_post h _ _).bind fun _ => onlyFails_done fun _ => incidental_stateOf

end IdentityTokens
