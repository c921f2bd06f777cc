import IdentityTokens.Error
import IdentityTokens.Proofs.Call.Runs
import IdentityTokens.Proofs.Json.Decoding

/-! # Errors of a platform

An answer without success may hold an error in its body, with a status and a message, in an object
of its own. The status decides the category if it is recognised, and the message is the one of the
error that is made of it; for want of them there are the status of the answer and its whole body. -/
namespace IdentityTokens

namespace Category

/-- A status is recognised by the name of its category, or by one of two more. -/
theorem ofPlatformStatus?_eq_some_iff {status : String} {c : Category} :
    ofPlatformStatus? status = some c ↔
      status = c.name ∨ c = .conflict ∧ (status = "ALREADY_EXISTS" ∨ status = "ABORTED") := by
  rw [ofPlatformStatus?]
  by_cases hconflict : status = "ALREADY_EXISTS" ∨ status = "ABORTED"
  · rw [if_pos hconflict, Option.some.injEq]
    have hname : status ≠ c.name := by
      rcases hconflict with rfl | rfl <;> cases c <;> decide
    simp [hconflict, hname, eq_comm]
  · rw [if_neg hconflict]
    simp only [hconflict, and_false, or_false]
    constructor
    · intro h
      simpa [eq_comm] using List.find?_some h
    · rintro rfl
      cases c <;> decide

end Category

namespace AuthError

variable {status : Nat} {body : Bytes} {c : Category}

/-! ## What a body tells -/

section Told

open Json Json.Form

/-- A value tells of an error. Its status and its message may be null, and missing in an object. -/
structure Details (w : Json) (d : Detail) : Prop where
  shaped : ObjectOrList 2 2 w
  status : Determines (given "status" 0 w) (Optionally fun v s => v = .text s) none d.status
  message : Determines (given "message" 1 w) (Optionally fun v s => v = .text s) none d.message

/-- A value holds what is told of an error, if there is anything. -/
structure Envelops (w : Json) (d : Option Detail) : Prop where
  shaped : ObjectOrList 1 1 w
  error : Determines (given "error" 0 w) (Optionally Details) none d

theorem endsAlike_detailForm : detailForm.EndsAlike := by
  simp only [EndsAlike, detailForm, List.forall_mem_cons, List.not_mem_nil, false_imp_iff,
    implies_true, and_true]
  exact ⟨accords_text.optional.endsAlike, accords_text.optional.endsAlike⟩

theorem settles_status :
    detailForm.Settles "status" 0 Detail.status (Optionally fun w s => w = .text s) := by
  refine settles_of_fields [] rfl (accords_text.optional.mono fun w s h v => h) ?_
  simp [field, keeps_deepField]

theorem settles_message :
    detailForm.Settles "message" 1 Detail.message (Optionally fun w s => w = .text s) := by
  refine settles_of_fields [_] rfl (accords_text.optional.mono fun w s h v => h) ?_
  simp [field, keeps_deepField]

theorem shaped_detailForm {w : Json} : detailForm.Shaped w ↔ ObjectOrList 2 2 w :=
  shaped_iff_of_inList (by simp [detailForm, field, deepField])

theorem details_of_records {w : Json} {d : Detail} (h : detailForm.Records w d) : Details w d where
  shaped := shaped_detailForm.mp h.shaped
  status := h.settled_part settles_status
  message := h.settled_part settles_message

theorem readsAs_detail : ReadsAs detailForm.read Details := by
  refine Form.readsAs endsAlike_detailForm rfl (fun _ => rfl) (fun _ _ => details_of_records)
    (fun w d h => ⟨shaped_detailForm.mpr h.shaped, ?_⟩) fun w d d' h h' => ?_
  · simp only [detailForm, List.zipIdx_cons, List.zipIdx_nil, List.forall_mem_cons,
      List.not_mem_nil, false_imp_iff, implies_true, and_true]
    exact ⟨h.status.givenOnce readsAs_optional_text, h.message.givenOnce readsAs_optional_text⟩
  · have hstatus := h.status.unique readsAs_optional_text h'.status
    have hmessage := h.message.unique readsAs_optional_text h'.message
    obtain ⟨status, message⟩ := d
    cases hstatus
    cases hmessage
    rfl

/-- **A body decodes to what it holds of an error.** -/
theorem decode_envelope_eq_ok_iff {w : Json} {d : Option Detail}
    (hraw : Json.readRaw body = .ok w) : envelopeForm.decode body = .ok d ↔ Envelops w d := by
  have hshaped : envelopeForm.Shaped w ↔ ObjectOrList 1 1 w :=
    shaped_iff_of_inList (by simp [envelopeForm, deepField])
  have hreads : ReadsAs envelopeForm.read _ :=
    readsAs_of_single rfl rfl (fun _ => rfl) (readsAs_detail.optional fun d h => h.shaped)
  rw [decode, hreads.document hraw, hshaped]
  exact ⟨fun h => ⟨h.1, h.2⟩, fun h => ⟨h.shaped, h.error⟩⟩

end Told

/-! ## The error that is made of it -/

/-- The body can be read and gives its error a status that is recognised. -/
def NamesCategory (body : Bytes) (c : Category) : Prop :=
  ∃ d status, envelopeForm.decode body = .ok (some d) ∧ d.status = some status ∧
    Category.ofPlatformStatus? status = some c

/-- The body can be read and tells something of its error. -/
def TellsMessage (body : Bytes) (text : String) : Prop :=
  ∃ d, envelopeForm.decode body = .ok (some d) ∧ d.message = some text ∧ text ≠ ""

theorem category_ofPlatformResponse (status : Nat) (body : Bytes) :
    (ofPlatformResponse status body).category =
      ((((envelopeForm.decode body).toOption.join).bind (·.status)).bind
        Category.ofPlatformStatus?).getD (Category.ofHttpStatus status) := rfl

theorem message_ofPlatformResponse (status : Nat) (body : Bytes) :
    (ofPlatformResponse status body).message =
      ((((envelopeForm.decode body).toOption.join).bind (·.message)).filter (· ≠ "")).getD
        (s!"unexpected http response with status: {status}\n" ++ Text.ofBytesLossy body) := rfl

theorem category_of_names (h : NamesCategory body c) :
    (ofPlatformResponse status body).category = c := by
  obtain ⟨d, named, hdecode, hnamed, hc⟩ := h
  rw [category_ofPlatformResponse, hdecode]
  change ((d.status).bind Category.ofPlatformStatus?).getD _ = c
  rw [hnamed, Option.bind_some, hc]
  rfl

theorem category_of_names_none (h : ∀ c, ¬ NamesCategory body c) :
    (ofPlatformResponse status body).category = Category.ofHttpStatus status := by
  have hnone : (((envelopeForm.decode body).toOption.join).bind (·.status)).bind
      Category.ofPlatformStatus? = none := by
    rw [Option.eq_none_iff_forall_not_mem]
    intro c hc
    obtain ⟨named, hnamed, hc⟩ := Option.bind_eq_some_iff.mp hc
    obtain ⟨d, hd, hnamed⟩ := Option.bind_eq_some_iff.mp hnamed
    exact h c ⟨d, named, toOption_eq_some.mp (Option.join_eq_some_iff.mp hd), hnamed, hc⟩
  rw [category_ofPlatformResponse, hnone]
  rfl

theorem message_of_tells {text : String} (h : TellsMessage body text) :
    (ofPlatformResponse status body).message = text := by
  obtain ⟨d, hdecode, htext, hne⟩ := h
  rw [message_ofPlatformResponse, hdecode]
  change (Option.filter (· ≠ "") d.message).getD _ = text
  rw [htext, Option.filter_some, if_pos (decide_eq_true hne)]
  rfl

theorem message_of_tells_none (h : ∀ text, ¬ TellsMessage body text) :
    (ofPlatformResponse status body).message =
      s!"unexpected http response with status: {status}\n" ++ Text.ofBytesLossy body := by
  have hnone : (((envelopeForm.decode body).toOption.join).bind (·.message)).filter (· ≠ "") =
      none := by
    rw [Option.eq_none_iff_forall_not_mem]
    intro text htext
    obtain ⟨htext, hne⟩ := Option.filter_eq_some_iff.mp htext
    obtain ⟨d, hd, htext⟩ := Option.bind_eq_some_iff.mp htext
    exact h text ⟨d, toOption_eq_some.mp (Option.join_eq_some_iff.mp hd), htext, by simpa using hne⟩
  rw [message_ofPlatformResponse, hnone]
  rfl

end AuthError

end IdentityTokens
