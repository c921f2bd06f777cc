import IdentityTokens.Proofs.Json.Decoding
import IdentityTokens.Users.Lookup

/-! # Which users a body describes

The answer to a lookup is an object that may hold a list of users, and of a user it says whether
the account is disabled and from when on its tokens count. Both may be left out, null may stand for
the time, and whatever else there is does not count. A body that is a value decodes to the users
that are described in this way, and one that describes none in any way does not decode. -/
namespace IdentityTokens.UserLookup

open Json Json.Form

/-- A value describes a user. In a list the members have their places in place of their names. -/
structure Describes (w : Json) (u : User) : Prop where
  shaped : ObjectOrList 0 2 w
  disabled : Determines (given "disabled" 0 w) (fun v b => v = .bool b) false u.disabled
  validSince : Determines (given "validSince" 1 w) (Optionally fun v s => v = .text s) none
    u.validSince

/-- A value describes the users of an answer, in their order. -/
structure DescribesAll (w : Json) (users : List User) : Prop where
  shaped : ObjectOrList 0 1 w
  users : Determines (given "users" 0 w) (Itemwise Describes) [] users

/-! ## One user -/

theorem endsAlike_userForm : userForm.EndsAlike := by
  simp only [EndsAlike, userForm, List.forall_mem_cons, List.not_mem_nil, false_imp_iff,
    implies_true, and_true]
  exact ⟨accords_boolean.endsAlike, accords_text.optional.endsAlike⟩

theorem settles_disabled :
    userForm.Settles "disabled" 0 User.disabled fun w b => w = .bool b := by
  refine settles_of_fields [] rfl (accords_boolean.mono fun w b h v => h) ?_
  simp [field, keeps_deepField]

theorem settles_validSince :
    userForm.Settles "validSince" 1 User.validSince (Optionally fun w s => w = .text s) := by
  refine settles_of_fields [_] rfl (accords_text.optional.mono fun w s h v => h) ?_
  simp [field, keeps_deepField]

theorem shaped_userForm {w : Json} : userForm.Shaped w ↔ ObjectOrList 0 2 w :=
  shaped_iff_of_always (by simp [userForm, field, deepField])

theorem describes_of_records {w : Json} {u : User} (h : userForm.Records w u) : Describes w u where
  shaped := shaped_userForm.mp h.shaped
  disabled := h.settled_part settles_disabled
  validSince := h.settled_part settles_validSince

/-- **A user is read as it is described.** -/
theorem readsAs_user : ReadsAs userForm.read Describes := by
  refine Form.readsAs endsAlike_userForm rfl (fun _ => rfl) (fun _ _ => describes_of_records)
    (fun w u h => ⟨shaped_userForm.mpr h.shaped, ?_⟩) fun w u u' h h' => ?_
  · simp only [userForm, List.zipIdx_cons, List.zipIdx_nil, List.forall_mem_cons, List.not_mem_nil,
      false_imp_iff, implies_true, and_true]
    exact ⟨h.disabled.givenOnce readsAs_boolean, h.validSince.givenOnce readsAs_optional_text⟩
  · have hdisabled := h.disabled.unique readsAs_boolean h'.disabled
    have hsince := h.validSince.unique readsAs_optional_text h'.validSince
    obtain ⟨disabled, since⟩ := u
    cases hdisabled
    cases hsince
    rfl

/-! ## All users -/

/-- **A body decodes to the users that it describes**, and to no others. -/
theorem decode_eq_ok_iff {body : Bytes} {w : Json} {users : List User}
    (hraw : Json.readRaw body = .ok w) :
    answerForm.decode body = .ok users ↔ DescribesAll w users := by
  have hshaped : answerForm.Shaped w ↔ ObjectOrList 0 1 w :=
    shaped_iff_of_always (by simp [answerForm, deepField])
  have hreads : ReadsAs answerForm.read _ :=
    readsAs_of_single rfl rfl (fun _ => rfl) readsAs_user.list
  rw [decode, hreads.document hraw, hshaped]
  exact ⟨fun h => ⟨h.1, h.2⟩, fun h => ⟨h.shaped, h.users⟩⟩

end IdentityTokens.UserLookup
