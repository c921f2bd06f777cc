import IdentityTokens.Proofs.Text.Decimal
import IdentityTokens.Proofs.Users.Answers
import IdentityTokens.Proofs.Users.Revocation

/-! # What an answer says of a user

An answer tells of a user only if it is a success, can be read and has a first user whose time is
nothing or a decimal integer in range; any other answer is an error. The time is in seconds and is
compared in milliseconds, after both sides were multiplied as far as they go. That is the comparison
of the seconds themselves, but for two times that are both past the last second that is multiplied
in full, or both before the first. -/
namespace IdentityTokens

namespace UserState

/-- The last second with all of its milliseconds in range. -/
def lastSecond : Int := 9223372036854775

/-- One time is before another, and they are not both out of the range of milliseconds on one
side. -/
structure Predates (issued valid : Int64) : Prop where
  lt : issued.toInt < valid.toInt
  above : ¬ (lastSecond < issued.toInt ∧ lastSecond < valid.toInt)
  below : ¬ (issued.toInt < -lastSecond ∧ valid.toInt < -lastSecond)

theorem predates_iff {issued valid : Int64} :
    Predates issued valid ↔ issued.toInt < valid.toInt ∧
      ¬ (lastSecond < issued.toInt ∧ lastSecond < valid.toInt) ∧
      ¬ (issued.toInt < -lastSecond ∧ valid.toInt < -lastSecond) :=
  ⟨fun h => ⟨h.lt, h.above, h.below⟩, fun h => ⟨h.1, h.2.1, h.2.2⟩⟩

/-- **Milliseconds compare as seconds do**, as far as the range goes. -/
theorem millis_lt_millis_iff {issued valid : Int64} :
    millis issued < millis valid ↔ Predates issued valid := by
  have hissued := And.intro issued.le_toInt issued.toInt_lt
  have hvalid := And.intro valid.le_toInt valid.toInt_lt
  rw [millis_lt_iff, millis, toInt_clamp, predates_iff, lastSecond]
  omega

/-- The outcome of the check of a user who is not disabled. -/
theorem check_enabled (kind : Kind) (issued valid : Int64) :
    (Predates issued valid ∧
      check ⟨false, millis valid⟩ kind issued = .error (revokedError kind)) ∨
    (¬ Predates issued valid ∧ check ⟨false, millis valid⟩ kind issued = .ok ()) := by
  rw [← millis_lt_millis_iff, check, if_neg Bool.false_ne_true]
  by_cases h : millis issued < millis valid
  · exact .inl ⟨h, if_pos h⟩
  · exact .inr ⟨h, if_neg h⟩

/-- One second past the last one there is nothing left to tell times apart by. -/
example : check ⟨false, millis (9223372036854775 + 2)⟩ .idToken (9223372036854775 + 1) = .ok () := by
  decide

end UserState

namespace UserLookup

open UserState

/-- What the time of a user says, in seconds: nothing, or an integer in decimal. -/
inductive SaysSince : Option String → Int64 → Prop where
  | absent : SaysSince none 0
  | empty : SaysSince (some "") 0
  | decimal {s : String} {since : Int64} (h : Text.WritesInt s.toList since.toInt) :
      SaysSince (some s) since

/-- An answer that tells of a user whose tokens count from a time on. -/
structure Tells (r : Response) (u : User) (since : Int64) : Prop where
  success : 200 ≤ r.status ∧ r.status < 300
  first : ∃ others, answerForm.decode r.body = .ok (u :: others)
  since : SaysSince u.validSince since

theorem isSuccess_iff {r : Response} :
    r.isSuccess = true ↔ 200 ≤ r.status ∧ r.status < 300 := by
  simp [Response.isSuccess]

theorem isSuccess_eq_false {r : Response} (h : ¬ (200 ≤ r.status ∧ r.status < 300)) :
    r.isSuccess = false :=
  Bool.eq_false_iff.mpr fun hs => h (isSuccess_iff.mp hs)

theorem int64_eq_ok_iff {s : String} {n : Int} :
    Text.decimal? Int64.minValue.toInt Int64.maxValue.toInt s = .ok n ↔
      Text.WritesInt s.toList n ∧ Int64.minValue.toInt ≤ n ∧ n ≤ Int64.maxValue.toInt ∧
        (s.toList.head? = some '-' → Int64.minValue.toInt < 0) :=
  Text.decimal?_eq_ok_iff (by decide) (by decide)

theorem validFrom_of_filled {disabled : Bool} {s : String} {since : Int64} (hs : s ≠ "") :
    (⟨disabled, some s⟩ : User).validFrom = .ok since ↔ Text.WritesInt s.toList since.toInt := by
  rw [User.validFrom, Option.filter_some, if_pos (by simpa using hs)]
  dsimp only
  constructor
  · intro h
    rcases hread : Text.decimal? Int64.minValue.toInt Int64.maxValue.toInt s with f | n
    all_goals
      rw [hread] at h
      cases h
    obtain ⟨hwrites, hlo, hhi, -⟩ := int64_eq_ok_iff.mp hread
    rwa [Int64.toInt_ofInt_of_le hlo (Int.lt_of_le_of_lt hhi (by decide))]
  · intro h
    have hsign : s.toList.head? = some '-' → Int64.minValue.toInt < 0 := fun _ => by decide
    rw [int64_eq_ok_iff.mpr ⟨h, since.minValue_le_toInt, since.toInt_le, hsign⟩]
    exact congrArg Except.ok since.ofInt_toInt

/-- The time that can be read is the one that is said. -/
theorem validFrom_eq_ok_iff {u : User} {since : Int64} :
    u.validFrom = .ok since ↔ SaysSince u.validSince since := by
  obtain ⟨disabled, said⟩ := u
  cases said with
  | none =>
    constructor
    · rintro ⟨⟩
      exact .absent
    · rintro ⟨⟩
      rfl
  | some s =>
    by_cases hs : s = ""
    · subst hs
      constructor
      · rintro ⟨⟩
        exact .empty
      · rintro (_ | _ | h)
        · rfl
        · exact absurd h Text.writesInt_nil
    rw [validFrom_of_filled hs]
    constructor
    · exact .decimal
    · rintro (_ | _ | h)
      · exact absurd rfl hs
      · exact h

/-- The state that an answer gives is told by it. -/
theorem exists_tells {uid : String} {r : Response} {s : UserState} (h : stateOf uid r = .ok s) :
    ∃ u since, Tells r u since ∧ s = ⟨u.disabled, millis since⟩ := by
  rw [stateOf] at h
  cases hs : r.isSuccess with
  | false =>
    rw [hs] at h
    cases h
  | true =>
    rw [hs] at h
    obtain ⟨users, hdecode, h⟩ := ok_of_bind h
    have hform := ok_of_mapError hdecode
    cases users with
    | nil => cases h
    | cons u others =>
      obtain ⟨since, hsince, h⟩ := ok_of_bind h
      cases h
      exact ⟨u, since, ⟨isSuccess_iff.mp hs, ⟨others, hform⟩, validFrom_eq_ok_iff.mp hsince⟩, rfl⟩

/-- **An answer gives a state exactly if it tells of a user.** -/
theorem stateOf_eq_ok_iff {uid : String} {r : Response} {s : UserState} :
    stateOf uid r = .ok s ↔
      ∃ u since, Tells r u since ∧ s = ⟨u.disabled, millis since⟩ := by
  refine ⟨exists_tells, ?_⟩
  rintro ⟨u, since, htells, rfl⟩
  obtain ⟨others, hform⟩ := htells.first
  rw [stateOf, isSuccess_iff.mpr htells.success, hform]
  change u.state = _
  rw [User.state, validFrom_eq_ok_iff.mpr htells.since]
  rfl

/-- A time that is a number and not text fails the answer it stands in. -/
example : (answerForm.decode
    (Text.bytes "\x7b\"users\":[\x7b\"validSince\":5\x7d]\x7d")).toOption.isNone := by
  cbv

/-- A success that tells of nobody says so. -/
theorem stateOf_of_nobody (uid : String) {r : Response} (hs : r.isSuccess = true)
    (hform : answerForm.decode r.body = .ok []) : stateOf uid r = .error (unknownUser uid) := by
  rw [stateOf, hs, hform]
  rfl

variable {l : UserLookup} {outside : Outside} {w w' : World} {r : Response}

/-- The answer that a lookup gets to what it posts. -/
def answer (l : UserLookup) (uid : String) (outside : Outside) (w : World) :
    Except AuthError Response × World :=
  (Web.post l.bearer l.endpoint (body uid)).run outside w

theorem run_state_of_ok {uid : String} (h : l.answer uid outside w = (.ok r, w')) :
    (l.state uid).run outside w = (stateOf uid r, w') := by
  rw [state, Call.run_bind_ok h]
  rfl

/-- A check comes to what the answer tells. -/
theorem run_check_of_tells {kind : Kind} {t : IdToken} {u : User} {since : Int64}
    (h : l.answer t.uid outside w = (.ok r, w')) (htells : Tells r u since) :
    ((Users.lookup l).check kind t).run outside w =
      (UserState.check ⟨u.disabled, millis since⟩ kind t.issuedAt, w') := by
  rw [Users.run_check, Users.state, run_state_of_ok h,
    stateOf_eq_ok_iff.mpr ⟨u, since, htells, rfl⟩]

/-- In a run a lookup got an answer about the user of a token, and the user it tells of is not
disabled. -/
structure Asked (l : UserLookup) (outside : Outside) (w w' : World) (t : IdToken) (r : Response)
    (since : Int64) : Prop where
  answer : l.answer t.uid outside w = (.ok r, w')
  user : ∃ u, Tells r u since ∧ u.disabled = false

theorem Asked.run_check {t : IdToken} {since : Int64} (h : Asked l outside w w' t r since)
    (kind : Kind) :
    (Predates t.issuedAt since ∧
      ((Users.lookup l).check kind t).run outside w = (.error (revokedError kind), w')) ∨
    (¬ Predates t.issuedAt since ∧
      ((Users.lookup l).check kind t).run outside w = (.ok (), w')) := by
  obtain ⟨u, htells, hdisabled⟩ := h.user
  rw [run_check_of_tells h.answer htells, hdisabled]
  rcases check_enabled kind t.issuedAt since with ⟨hp, hc⟩ | ⟨hp, hc⟩
  · exact .inl ⟨hp, by rw [hc]⟩
  · exact .inr ⟨hp, by rw [hc]⟩

/-- What an answer decides, whoever got it about whichever user and for whichever token. -/
structure Decides (r : Response) : Prop where
  /-- A body that is a value decodes to the users that are described in it, member by member. -/
  body : ∀ w, Json.readRaw r.body = .ok w → ∀ users,
    answerForm.decode r.body = .ok users ↔ DescribesAll w users
  /-- There is a state if and only if the answer tells of a user, -/
  state : ∀ uid s, stateOf uid r = .ok s ↔
    ∃ u since, Tells r u since ∧ s = ⟨u.disabled, millis since⟩
  /-- and an answer without users is told apart from all others. -/
  nobody : r.isSuccess = true → answerForm.decode r.body = .ok [] →
    ∀ uid, ∃ e, stateOf uid r = .error e ∧ e.category = .notFound ∧ e.code = .userNotFound
  lookup : ∀ (l : UserLookup) uid outside w w', l.answer uid outside w = (.ok r, w') →
    (l.state uid).run outside w = (stateOf uid r, w')
  revoked : ∀ {l outside w w' t since}, Asked l outside w w' t r since → ∀ kind,
    ((∃ e, ((Users.lookup l).check kind t).run outside w = (.error e, w') ∧
      e.code = kind.revokedCode) ↔ Predates t.issuedAt since)
  accepted : ∀ {l outside w w' t since}, Asked l outside w w' t r since → ∀ kind,
    (((Users.lookup l).check kind t).run outside w = (.ok (), w') ↔ ¬ Predates t.issuedAt since)
  /-- A token that was issued at the time itself or later counts. -/
  later : ∀ {l outside w w' t since}, Asked l outside w w' t r since → ∀ kind,
    since.toInt ≤ t.issuedAt.toInt →
      ((Users.lookup l).check kind t).run outside w = (.ok (), w')

/-- **An answer decides by the first user in it and by nothing else.** It is an error where it does
not tell of a user, and a token is revoked just if it was issued before the second that is told, in
the range of milliseconds. -/
theorem answer_decides (r : Response) : Decides r where
  body _ hraw _ := decode_eq_ok_iff hraw
  state _ _ := stateOf_eq_ok_iff
  nobody hs hform uid := ⟨_, stateOf_of_nobody uid hs hform, rfl, rfl⟩
  lookup _ _ _ _ _ h := run_state_of_ok h
  revoked h kind := by
    rcases h.run_check kind with ⟨hp, hc⟩ | ⟨hp, hc⟩
    · exact iff_of_true ⟨_, hc, rfl⟩ hp
    · refine iff_of_false ?_ hp
      rintro ⟨e, he, -⟩
      exact nomatch hc.symm.trans he
  accepted h kind := by
    rcases h.run_check kind with ⟨hp, hc⟩ | ⟨hp, hc⟩
    · exact iff_of_false (fun ho => nomatch hc.symm.trans ho) (not_not_intro hp)
    · exact iff_of_true hc hp
  later h kind hle := by
    rcases h.run_check kind with ⟨hp, -⟩ | ⟨-, hc⟩
    · exact absurd hp.lt (Int.not_lt.mpr hle)
    · exact hc

end UserLookup

end IdentityTokens
