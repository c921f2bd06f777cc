import IdentityTokens.Proofs.Text.Quoted
import IdentityTokens.Proofs.Verifier.Acceptance
import IdentityTokens.Proofs.Verifier.Apart

/-! # What a minter refuses, and when

A minter finds out for whom it signs, looks at the user ID, then at the names of the developer
claims, and hands nothing to the signer before that. So a refusal is one of four, the first that
applies. The user IDs it takes are the subjects that verifiers take, both counted in code points,
and the claims it does not take are told in the order of the table of reserved names, whatever
their own order is. -/
namespace IdentityTokens

namespace Minter

variable {m : Minter} {uid name : String} {claims claims' : List (String × Json)}

/-! ## The user ID -/

/-- What a user ID is refused with. -/
def uidRefusal : AuthError :=
  .invalidArgument .invalidUid "uid must be non-empty, and not longer than 128 characters"

theorem isUid_iff : isUid uid = true ↔ 1 ≤ uid.length ∧ uid.length ≤ 128 := by
  have hempty : uid ≠ "" ↔ 1 ≤ uid.length := by
    rw [ne_eq, ← String.length_eq_zero_iff]
    omega
  rw [isUid, maxUidLength, Bool.and_eq_true, decide_eq_true_eq, decide_eq_true_eq, hempty]

theorem checkUid_eq :
    checkUid uid = if 1 ≤ uid.length ∧ uid.length ≤ 128 then .ok () else .error uidRefusal := by
  simp only [checkUid, isUid_iff]
  rfl

/-! ## The developer claims -/

/-- How the reserved names are told. -/
def reservedText : List String → String
  | [name] => "developer claim \"" ++ name ++ "\" is reserved and cannot be specified"
  | names =>
    "developer claims \"" ++ ", ".intercalate names ++ "\" are reserved and cannot be specified"

/-- What developer claims are refused with. -/
def claimsRefusal (claims : List (String × Json)) : AuthError :=
  .invalidArgument .reservedClaims (reservedText (reservedAmong claims))

theorem mem_reservedAmong :
    name ∈ reservedAmong claims ↔ name ∈ reservedClaims ∧ name ∈ Json.names claims := by
  rw [reservedAmong, List.mem_filter, List.contains_iff_mem]

theorem reservedAmong_eq_nil_iff :
    reservedAmong claims = [] ↔ ∀ name ∈ reservedClaims, name ∉ Json.names claims := by
  rw [List.eq_nil_iff_forall_not_mem]
  exact forall_congr' fun name => by rw [mem_reservedAmong, not_and]

/-- Nothing but the names matters, and of the names nothing but which there are. -/
theorem reservedAmong_congr
    (h : ∀ name, name ∈ Json.names claims ↔ name ∈ Json.names claims') :
    reservedAmong claims = reservedAmong claims' := by
  refine List.filter_congr fun name _ => ?_
  rw [Bool.eq_iff_iff, List.contains_iff_mem, List.contains_iff_mem, h]

theorem plain_reservedClaims : ∀ name ∈ reservedClaims, ∀ c ∈ name.toList, Text.IsPlain c := by
  have hall : ∀ name ∈ reservedClaims, name.toList.all (Text.IsPlain ·) = true := by
    decide +kernel
  exact fun name hname => Text.plain_of_all (hall name hname)

theorem quoted_reservedAmong (claims : List (String × Json)) :
    Text.quoted (", ".intercalate (reservedAmong claims)) =
      "\"" ++ ", ".intercalate (reservedAmong claims) ++ "\"" :=
  Text.quoted_of_plain <| Text.plain_intercalate (Text.plain_of_all (by decide))
    fun name hname => plain_reservedClaims name (mem_reservedAmong.mp hname).1

/-- Names that need no escapes are told as they are, whatever is said of them. -/
theorem reservedError_eq {noun verb lead tail : String} {names : List String}
    (hquoted : Text.quoted (", ".intercalate names) = "\"" ++ ", ".intercalate names ++ "\"")
    (hlead : lead = "developer " ++ noun ++ " " ++ "\"")
    (htail : tail = "\"" ++ " " ++ verb ++ " reserved and cannot be specified") :
    reservedError noun verb names =
      .invalidArgument .reservedClaims (lead ++ ", ".intercalate names ++ tail) := by
  rw [reservedError, hquoted, hlead, htail]
  simp only [String.append_assoc]

theorem checkClaims_eq :
    checkClaims claims =
      if reservedAmong claims = [] then .ok () else .error (claimsRefusal claims) := by
  have hquoted := quoted_reservedAmong claims
  rw [checkClaims, claimsRefusal]
  generalize reservedAmong claims = present at hquoted ⊢
  match present with
  | [] => rw [if_pos rfl]
  | [name] =>
    rw [if_neg (List.cons_ne_nil _ _)]
    exact congrArg Except.error (reservedError_eq hquoted (by decide) (by decide))
  | a :: b :: names =>
    rw [if_neg (List.cons_ne_nil _ _)]
    exact congrArg Except.error (reservedError_eq hquoted (by decide) (by decide))

/-! ## The steps -/

/-- What the signer is handed for a user, in the name of an account and at a time. -/
def unsigned (m : Minter) (email : String) (now : Int64) (uid : String)
    (claims : List (String × Json)) : String :=
  Jwt.signingInput (JwtHeader.ofAlgorithm m.signer.algorithm)
    (CustomToken.issue email now uid claims m.tenant).toJson

theorem mint_of_uid (huid : ¬ (1 ≤ uid.length ∧ uid.length ≤ 128)) :
    m.mint uid claims = m.signer.email >>= fun _ => Call.fail uidRefusal := by
  rw [mint, checkUid_eq, if_neg huid]
  rfl

theorem mint_of_reserved (huid : 1 ≤ uid.length ∧ uid.length ≤ 128)
    (hclaims : reservedAmong claims ≠ []) :
    m.mint uid claims = m.signer.email >>= fun _ => Call.fail (claimsRefusal claims) := by
  rw [mint, checkUid_eq, if_pos huid, checkClaims_eq, if_neg hclaims]
  rfl

theorem mint_of_signed (huid : 1 ≤ uid.length ∧ uid.length ≤ 128)
    (hclaims : reservedAmong claims = []) :
    m.mint uid claims = m.signer.email >>= fun email => Call.now >>= fun now =>
      m.signer.sign (Text.bytes (m.unsigned email now uid claims)) >>= fun signature =>
        return Jwt.assemble (m.unsigned email now uid claims) signature := by
  rw [mint, checkUid_eq, if_pos huid, checkClaims_eq, if_pos hclaims]
  rfl

section Runs

variable {outside : Outside} {w w₁ w₂ w' : World} {e : AuthError} {email token : String}
  {signature : Bytes}

theorem run_mint_of_no_email (h : m.signer.email.run outside w = (.error e, w₁)) :
    (m.mint uid claims).run outside w = (.error e, w₁) :=
  Call.run_bind_error h

theorem run_mint_of_uid (h : m.signer.email.run outside w = (.ok email, w₁))
    (huid : ¬ (1 ≤ uid.length ∧ uid.length ≤ 128)) :
    (m.mint uid claims).run outside w = (.error uidRefusal, w₁) := by
  rw [mint_of_uid huid, Call.run_bind_ok h]
  rfl

theorem run_mint_of_reserved (h : m.signer.email.run outside w = (.ok email, w₁))
    (huid : 1 ≤ uid.length ∧ uid.length ≤ 128) (hclaims : reservedAmong claims ≠ []) :
    (m.mint uid claims).run outside w = (.error (claimsRefusal claims), w₁) := by
  rw [mint_of_reserved huid hclaims, Call.run_bind_ok h]
  rfl

theorem run_mint_of_unsigned (h : m.signer.email.run outside w = (.ok email, w₁))
    (huid : 1 ≤ uid.length ∧ uid.length ≤ 128) (hclaims : reservedAmong claims = [])
    (hsign : (m.signer.sign (Text.bytes (m.unsigned email (w₁.clock outside) uid claims))).run
      outside (w₁.timed outside) = (.error e, w₂)) :
    (m.mint uid claims).run outside w = (.error e, w₂) := by
  rw [mint_of_signed huid hclaims, Call.run_bind_ok h, Call.run_bind_ok Call.run_now]
  exact Call.run_bind_error hsign

theorem run_mint_of_signed (h : m.signer.email.run outside w = (.ok email, w₁))
    (huid : 1 ≤ uid.length ∧ uid.length ≤ 128) (hclaims : reservedAmong claims = [])
    (hsign : (m.signer.sign (Text.bytes (m.unsigned email (w₁.clock outside) uid claims))).run
      outside (w₁.timed outside) = (.ok signature, w₂)) :
    (m.mint uid claims).run outside w =
      (.ok (Jwt.assemble (m.unsigned email (w₁.clock outside) uid claims) signature), w₂) := by
  rw [mint_of_signed huid hclaims, Call.run_bind_ok h, Call.run_bind_ok Call.run_now,
    Call.run_bind_ok hsign]
  rfl

/-- A minter succeeds in a run if its four steps do, one after the other. -/
structure Steps (m : Minter) (uid : String) (claims : List (String × Json)) (outside : Outside)
    (w : World) (token : String) (w' : World) (email : String) (w₁ : World) (signature : Bytes) :
    Prop where
  account : m.signer.email.run outside w = (.ok email, w₁)
  user : 1 ≤ uid.length ∧ uid.length ≤ 128
  unreserved : ∀ name ∈ reservedClaims, name ∉ Json.names claims
  signed : (m.signer.sign (Text.bytes (m.unsigned email (w₁.clock outside) uid claims))).run outside
    (w₁.timed outside) = (.ok signature, w')
  assembled : token = Jwt.assemble (m.unsigned email (w₁.clock outside) uid claims) signature

/-- The first of the steps that fails, what it fails with and where that leaves the world. -/
inductive FirstFailure (m : Minter) (uid : String) (claims : List (String × Json))
    (outside : Outside) (w : World) : AuthError → World → Prop
  | email {e : AuthError} {w₁ : World} (h : m.signer.email.run outside w = (.error e, w₁)) :
      FirstFailure m uid claims outside w e w₁
  | uid {email : String} {w₁ : World} (h : m.signer.email.run outside w = (.ok email, w₁))
      (huid : ¬ (1 ≤ uid.length ∧ uid.length ≤ 128)) :
      FirstFailure m uid claims outside w uidRefusal w₁
  | claims {email : String} {w₁ : World} (h : m.signer.email.run outside w = (.ok email, w₁))
      (huid : 1 ≤ uid.length ∧ uid.length ≤ 128)
      (hclaims : ∃ name ∈ reservedClaims, name ∈ Json.names claims) :
      FirstFailure m uid claims outside w (claimsRefusal claims) w₁
  | sign {email : String} {e : AuthError} {w₁ w₂ : World}
      (h : m.signer.email.run outside w = (.ok email, w₁))
      (huid : 1 ≤ uid.length ∧ uid.length ≤ 128)
      (hclaims : ∀ name ∈ reservedClaims, name ∉ Json.names claims)
      (hsign : (m.signer.sign (Text.bytes (m.unsigned email (w₁.clock outside) uid claims))).run
        outside (w₁.timed outside) = (.error e, w₂)) :
      FirstFailure m uid claims outside w e w₂

theorem reservedAmong_ne_nil_iff :
    reservedAmong claims ≠ [] ↔ ∃ name ∈ reservedClaims, name ∈ Json.names claims := by
  rw [ne_eq, reservedAmong_eq_nil_iff]
  push Not
  rfl

theorem run_of_firstFailure (h : FirstFailure m uid claims outside w e w') :
    (m.mint uid claims).run outside w = (.error e, w') := by
  cases h with
  | email h => exact run_mint_of_no_email h
  | uid h huid => exact run_mint_of_uid h huid
  | claims h huid hclaims =>
    exact run_mint_of_reserved h huid (reservedAmong_ne_nil_iff.mpr hclaims)
  | sign h huid hclaims hsign =>
    exact run_mint_of_unsigned h huid (reservedAmong_eq_nil_iff.mpr hclaims) hsign

/-- A run takes all steps, or one of them fails first. -/
theorem steps_or_firstFailure (m : Minter) (uid : String) (claims : List (String × Json))
    (outside : Outside) (w : World) :
    (∃ token w' email w₁ signature, Steps m uid claims outside w token w' email w₁ signature) ∨
      ∃ e w', FirstFailure m uid claims outside w e w' := by
  rcases h : m.signer.email.run outside w with ⟨e | email, w₁⟩
  · exact .inr ⟨e, w₁, .email h⟩
  by_cases huid : 1 ≤ uid.length ∧ uid.length ≤ 128
  swap
  · exact .inr ⟨_, w₁, .uid h huid⟩
  by_cases hclaims : reservedAmong claims = []
  swap
  · exact .inr ⟨_, w₁, .claims h huid (reservedAmong_ne_nil_iff.mp hclaims)⟩
  replace hclaims := reservedAmong_eq_nil_iff.mp hclaims
  rcases hsign : (m.signer.sign (Text.bytes (m.unsigned email (w₁.clock outside) uid claims))).run
    outside (w₁.timed outside) with ⟨e | signature, w₂⟩
  · exact .inr ⟨e, w₂, .sign h huid hclaims hsign⟩
  · exact .inl ⟨_, w₂, email, w₁, signature, h, huid, hclaims, hsign, rfl⟩

theorem run_of_steps (h : Steps m uid claims outside w token w' email w₁ signature) :
    (m.mint uid claims).run outside w = (.ok token, w') := by
  rw [h.assembled]
  exact run_mint_of_signed h.account h.user (reservedAmong_eq_nil_iff.mpr h.unreserved) h.signed

theorem run_mint_eq_ok_iff :
    (m.mint uid claims).run outside w = (.ok token, w') ↔
      ∃ email w₁ signature, Steps m uid claims outside w token w' email w₁ signature := by
  refine ⟨fun h => ?_, fun ⟨_, _, _, hsteps⟩ => run_of_steps hsteps⟩
  rcases steps_or_firstFailure m uid claims outside w with ⟨_, _, _, _, _, hsteps⟩ | ⟨_, _, hfails⟩
  · obtain ⟨htoken, hworld⟩ := Prod.mk.inj ((run_of_steps hsteps).symm.trans h)
    obtain rfl := Except.ok.inj htoken
    obtain rfl := hworld
    exact ⟨_, _, _, hsteps⟩
  · obtain ⟨hresult, -⟩ := Prod.mk.inj ((run_of_firstFailure hfails).symm.trans h)
    exact nomatch hresult

theorem run_mint_eq_error_iff :
    (m.mint uid claims).run outside w = (.error e, w') ↔
      FirstFailure m uid claims outside w e w' := by
  refine ⟨fun h => ?_, run_of_firstFailure⟩
  rcases steps_or_firstFailure m uid claims outside w with ⟨_, _, _, _, _, hsteps⟩ | ⟨_, _, hfails⟩
  · obtain ⟨hresult, -⟩ := Prod.mk.inj ((run_of_steps hsteps).symm.trans h)
    exact nomatch hresult
  · obtain ⟨he, hworld⟩ := Prod.mk.inj ((run_of_firstFailure hfails).symm.trans h)
    obtain rfl := Except.error.inj he
    obtain rfl := hworld
    exact hfails

end Runs

/-! ## Users and subjects -/

/-- The checks of a verification besides those of the subject. -/
def besideSubject : List Check := Check.order.filter fun c => c ≠ .subject ∧ c ≠ .subjectLength

theorem passes_order_iff {a : Attempt} :
    a.Passes Check.order ↔ a.Passes besideSubject ∧ a.failure? .subject = none ∧
      a.failure? .subjectLength = none := by
  refine ⟨fun h => ⟨fun c hc => h c (List.mem_filter.mp hc).1, h _ (by decide), h _ (by decide)⟩, ?_⟩
  rintro ⟨hbeside, hsubject, hlength⟩ c hc
  by_cases hs : c = .subject
  · rw [hs, hsubject]
  by_cases hl : c = .subjectLength
  · rw [hl, hlength]
  · exact hbeside c (List.mem_filter.mpr ⟨hc, decide_eq_true ⟨hs, hl⟩⟩)

theorem subject_passes_iff {a : Attempt} {t : IdToken} (ht : a.typed = .ok t) :
    a.failure? .subject = none ∧ a.failure? .subjectLength = none ↔
      checkUid t.subject = .ok () := by
  have hempty : t.subject ≠ "" ↔ 1 ≤ t.subject.length := by
    rw [ne_eq, ← String.length_eq_zero_iff]
    omega
  have huid : checkUid t.subject = .ok () ↔ 1 ≤ t.subject.length ∧ t.subject.length ≤ 128 := by
    rw [checkUid_eq]
    split <;> simp [*]
  rw [huid, Attempt.failure?, Attempt.failure?, ht]
  simp only [Attempt.onRead, Attempt.refuse_eq_none, decide_eq_false_iff_not, Nat.not_lt]
  rw [← ne_eq, hempty]

theorem accepts_iff_passes {v : Verifier} {token : String} {outside : Outside} {w : World} :
    (∃ t, ((v.verify token).run outside w).1 = .ok t) ↔
      (Attempt.ofRun v token outside w).Passes Check.order := by
  have hd : (Attempt.ofRun v token outside w).Decided Check.order
      ((v.verify token).run outside w).1 := (Attempt.made_ofRun v token outside w).run.1
  rcases hr : ((v.verify token).run outside w).1 with e | t
  · rw [hr] at hd
    exact iff_of_false (fun ⟨t, ht⟩ => nomatch ht) hd.not_passes
  · rw [hr] at hd
    exact iff_of_true ⟨t, rfl⟩ hd

/-- A content for a subject that a verifier of a kind for a project accepts. -/
def contentFor (kind : Kind) (project subject : String) : CustomToken :=
  ⟨kind.issuer project, subject, project, 0, 0, "", [], none⟩

theorem exists_mayEnd_of_subject {kind : Kind} {project subject : String} (keys : KeySource)
    (hproject : project ≠ "") (hsubject : 1 ≤ subject.length ∧ subject.length ≤ 128) :
    ∃ token t, ((Verifier.emulated kind project keys).verify token).MayEnd (.ok t) ∧
      t.subject = subject := by
  let content := contentFor kind project subject
  let header := JwtHeader.ofAlgorithm JwtHeader.unsigned
  let token := Jwt.assemble (Jwt.signingInput header content.toJson) []
  have hclaims : (Json.object content.claims).Nests (Json.Reader.maxDepth - 1) :=
    .object fun _ hm => absurd hm List.not_mem_nil
  obtain ⟨members, hmembers⟩ :
      ∃ members, Json.readObject (Text.bytes content.toJson.compact) = .ok members :=
    Json.Nests.exists_readObject (CustomToken.nests_toJson hclaims)
  have hparts := parts_assemble header content []
  rw [hmembers] at hparts
  let p : Verifier.Parts := ⟨header, content.asIdToken, members⟩
  have hheader : Verifier.checkEmulated p.header = .ok () :=
    Verifier.checkEmulated_eq_ok_iff.mpr (.inr rfl)
  have hcontent : (Verifier.emulated kind project keys).checkClaims p.token = .ok () :=
    Verifier.checkClaims_eq_ok_iff.mpr ⟨rfl, rfl, hsubject⟩
  have hc : (Verifier.emulated kind project keys).checkContent token = .ok (header, p.settled) :=
    Verifier.checkContent_eq_ok_iff.mpr ⟨hproject, p, hparts, hheader, hcontent, rfl, rfl⟩
  have htimes : Verifier.checkTimes 0 p.settled = .ok () :=
    Verifier.checkTimes_eq_ok_iff.mpr
      ⟨show (0 : Int) - 300 ≤ 0 by decide, show (0 : Int) ≤ 0 + 300 by decide⟩
  refine ⟨token, p.settled, ?_, rfl⟩
  rw [Verifier.verify_of_accepted hc]
  refine .ask 0 ?_
  rw [Verifier.afterClock_emulated, htimes]
  exact .done _

theorem subject_of_mayEnd {v : Verifier} {token : String} {t : IdToken}
    (h : (v.verify token).MayEnd (.ok t)) : checkUid t.subject = .ok () := by
  obtain ⟨header, hc⟩ := Verifier.checkContent_of_mayEnd h
  obtain ⟨-, p, -, -, hclaims, -, rfl⟩ := Verifier.checkContent_eq_ok_iff.mp hc
  rw [checkUid_eq]
  exact if_pos (Verifier.checkClaims_eq_ok_iff.mp hclaims).2.2

/-! ## All refusals -/

theorem lower_reservedClaims :
    ∀ name ∈ reservedClaims, name.toList.map Char.toLower = name.toList := by
  decide +kernel

/-- A name that differs from a reserved one in case alone is not reserved. -/
theorem not_reserved_of_case {reserved : String}
    (hcase : name.toList.map Char.toLower = reserved.toList) (hne : name ≠ reserved) :
    name ∉ reservedClaims := by
  intro hname
  rw [lower_reservedClaims name hname] at hcase
  exact hne (String.toList_injective hcase)

/-- What a minter makes of a user ID and of developer claims. -/
structure RefusesInOrder (m : Minter) (uid : String) (claims : List (String × Json)) : Prop where
  /-- A run succeeds exactly if all four steps do. -/
  succeeds_iff : ∀ outside w token w', (m.mint uid claims).run outside w = (.ok token, w') ↔
    ∃ email w₁ signature, Steps m uid claims outside w token w' email w₁ signature
  /-- It fails exactly as the first of them that fails. -/
  fails_iff : ∀ outside w e w', (m.mint uid claims).run outside w = (.error e, w') ↔
    FirstFailure m uid claims outside w e w'
  /-- Nothing follows the question for the account where the user ID or the claims are refused,
  whatever others do meanwhile. -/
  unsigned : ∀ e, (checkUid uid >>= fun _ => checkClaims claims) = .error e →
    m.mint uid claims = m.signer.email >>= fun _ => Call.fail e
  /-- The user IDs are the subjects that verifiers may accept, of any kind and project. -/
  users : ∀ kind project keys, project ≠ "" → (checkUid uid = .ok () ↔
    ∃ token t, ((Verifier.emulated kind project keys).verify token).MayEnd (.ok t) ∧
      t.subject = uid)
  /-- No verifier hands out another subject. -/
  subjects : ∀ (v : Verifier) token t, (v.verify token).MayEnd (.ok t) →
    checkUid t.subject = .ok ()
  /-- Where a token passes all other checks of a verifier, it is accepted exactly if its subject
  would do as a user ID. -/
  decides : ∀ (v : Verifier) token outside w typed,
    (Attempt.ofRun v token outside w).typed = .ok typed →
    (Attempt.ofRun v token outside w).Passes besideSubject →
    ((∃ t, ((v.verify token).run outside w).1 = .ok t) ↔ checkUid typed.subject = .ok ())
  /-- Claims are refused for the reserved names among theirs, which are told each once and in the
  order of the table. -/
  told : (reservedAmong claims).Sublist reservedClaims ∧ (reservedAmong claims).Nodup ∧
    ∀ name, name ∈ reservedAmong claims ↔ name ∈ reservedClaims ∧ name ∈ Json.names claims
  /-- The message is that of one name, or that of several. -/
  message : (claimsRefusal claims).code = .reservedClaims ∧
    (∀ name, reservedAmong claims = [name] → (claimsRefusal claims).message =
      "developer claim \"" ++ name ++ "\" is reserved and cannot be specified") ∧
    (2 ≤ (reservedAmong claims).length → (claimsRefusal claims).message =
      "developer claims \"" ++ ", ".intercalate (reservedAmong claims) ++
        "\" are reserved and cannot be specified")
  /-- Neither the order, the number nor the values of the claims matter. -/
  names : ∀ claims', (∀ name, name ∈ Json.names claims ↔ name ∈ Json.names claims') →
    checkClaims claims = checkClaims claims'
  /-- A claim of another name makes no difference, whatever is nested in it. -/
  others : ∀ name v, name ∉ reservedClaims → checkClaims ((name, v) :: claims) = checkClaims claims
  /-- It has another name also if it differs from a reserved one in case alone. -/
  cased : ∀ name reserved, reserved ∈ reservedClaims →
    name.toList.map Char.toLower = reserved.toList → name ≠ reserved → name ∉ reservedClaims

theorem reservedAmong_cons {v : Json} (hname : name ∉ reservedClaims) :
    reservedAmong ((name, v) :: claims) = reservedAmong claims := by
  refine List.filter_congr fun reserved hreserved => ?_
  have hne : reserved ≠ name := fun h => hname (h ▸ hreserved)
  rw [Json.names, List.map_cons, List.contains_cons, beq_false_of_ne hne, Bool.false_or,
    Json.names]

theorem mint_of_refused {e : AuthError}
    (h : (checkUid uid >>= fun _ => checkClaims claims) = .error e) :
    m.mint uid claims = m.signer.email >>= fun _ => Call.fail e := by
  by_cases huid : 1 ≤ uid.length ∧ uid.length ≤ 128
  swap
  · rw [checkUid_eq, if_neg huid] at h
    obtain rfl := Except.error.inj h
    exact mint_of_uid huid
  rw [checkUid_eq, if_pos huid, checkClaims_eq] at h
  by_cases hclaims : reservedAmong claims = []
  · rw [if_pos hclaims] at h
    cases h
  · rw [if_neg hclaims] at h
    obtain rfl := Except.error.inj h
    exact mint_of_reserved huid hclaims

theorem message_claimsRefusal_of_two (h : 2 ≤ (reservedAmong claims).length) :
    (claimsRefusal claims).message =
      "developer claims \"" ++ ", ".intercalate (reservedAmong claims) ++
        "\" are reserved and cannot be specified" := by
  change reservedText (reservedAmong claims) = _
  generalize reservedAmong claims = present at h ⊢
  match present with
  | [] => exact absurd h (by decide)
  | [_] => exact absurd h (by simp)
  | _ :: _ :: _ => rfl

/-- **A minter refuses the first thing that is wrong**, and signs nothing then. -/
theorem refuses_in_order (m : Minter) (uid : String) (claims : List (String × Json)) :
    m.RefusesInOrder uid claims where
  succeeds_iff _ _ _ _ := run_mint_eq_ok_iff
  fails_iff _ _ _ _ := run_mint_eq_error_iff
  unsigned _ := mint_of_refused
  users kind project keys hproject := by
    constructor
    · intro huid
      rw [checkUid_eq] at huid
      exact exists_mayEnd_of_subject keys hproject (ok_of_guard huid).1
    · rintro ⟨token, t, hends, rfl⟩
      exact subject_of_mayEnd hends
  subjects _ _ _ := subject_of_mayEnd
  decides v token outside w typed htyped hbeside := by
    rw [accepts_iff_passes, passes_order_iff, subject_passes_iff htyped]
    exact and_iff_right hbeside
  told := ⟨List.filter_sublist, (by decide +kernel : reservedClaims.Nodup).filter _,
    fun _ => mem_reservedAmong⟩
  message := by
    refine ⟨rfl, fun name hname => ?_, message_claimsRefusal_of_two⟩
    change reservedText (reservedAmong claims) = _
    rw [hname]
    rfl
  names claims' h := by
    rw [checkClaims, checkClaims, reservedAmong_congr h]
  others name v hname := by
    rw [checkClaims, checkClaims, reservedAmong_cons hname]
  cased _ _ _ := not_reserved_of_case

end Minter

end IdentityTokens
