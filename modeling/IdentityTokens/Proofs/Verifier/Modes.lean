import IdentityTokens.Proofs.Call.Deeds
import IdentityTokens.Proofs.Call.Endings
import IdentityTokens.Proofs.Verifier.Decision

/-! # What an emulator leaves out

A verifier in front of an emulator does not look at signatures. What it gives up with that is
told by going through the steps of a verification. The content differs in what is asked of the
header alone, the times do not differ, and where the signature would come the emulated
verification is through. So whatever a verifier of signed tokens accepts at a time an emulated
one accepts too, and what it accepts beyond that lacks nothing but a signature. -/
namespace IdentityTokens.Verifier

/-- The verifier of a kind for a project that looks at signatures. -/
def signed (kind : Kind) (project : String) (keys : KeySource) : Verifier :=
  ⟨kind, project, false, keys⟩

/-- The verifier of a kind for a project that an emulator has. -/
def emulated (kind : Kind) (project : String) (keys : KeySource) : Verifier :=
  ⟨kind, project, true, keys⟩

variable {kind : Kind} {project token token' : String} {keys keys' : KeySource} {h : JwtHeader}
  {t : IdToken} {p : Parts} {now : Int64} {v : Verifier}

/-! ## Single steps -/

theorem checkSigned_eq_ok_iff :
    checkSigned h t = .ok () ↔ h.algorithm = "RS256" ∧ ∃ kid, h.keyId? = some kid := by
  rw [checkSigned, JwtHeader.rs256, ← Option.isSome_iff_exists]
  cases h.keyId? with
  | none => simp
  | some kid => by_cases halgorithm : h.algorithm = "RS256" <;> simp [halgorithm]

theorem checkEmulated_eq_ok_iff :
    checkEmulated h = .ok () ↔ h.algorithm = "RS256" ∨ h.algorithm = "none" := by
  rw [checkEmulated, JwtHeader.rs256, JwtHeader.unsigned]
  by_cases hsigned : h.algorithm = "RS256"
  · simp [hsigned]
  · by_cases hnone : h.algorithm = "none" <;> simp [hsigned, hnone]

theorem checkClaims_eq_ok_iff :
    v.checkClaims t = .ok () ↔
      t.audience = v.project ∧ t.issuer = v.kind.issuerStart ++ v.project ∧
        1 ≤ t.subject.length ∧ t.subject.length ≤ 128 := by
  have hempty : t.subject = "" ↔ ¬ 1 ≤ t.subject.length := by
    rw [← String.length_eq_zero_iff]
    omega
  rw [checkClaims, maxUidLength, Kind.issuer]
  by_cases haudience : t.audience = v.project
  · by_cases hissuer : t.issuer = v.kind.issuerStart ++ v.project
    · by_cases hsubject : 1 ≤ t.subject.length
      · simp [haudience, hissuer, hempty, hsubject]
      · simp [haudience, hissuer, hempty, hsubject]
    · simp [haudience, hissuer]
  · simp [haudience]

theorem checkTimes_eq_ok_iff :
    checkTimes now t = .ok () ↔
      t.issuedAt.toInt - 300 ≤ now.toInt ∧ now.toInt ≤ t.expires.toInt + 300 := by
  have hlo : -2 ^ 63 ≤ t.expires.toInt := t.expires.le_toInt
  have hhi : t.issuedAt.toInt < 2 ^ 63 := t.issuedAt.toInt_lt
  have hissued : now < clamp (t.issuedAt.toInt - skew) ↔ now.toInt < t.issuedAt.toInt - 300 :=
    lt_clamp_iff (by rw [skew]; omega) now
  have hexpired : clamp (t.expires.toInt + skew) < now ↔ t.expires.toInt + 300 < now.toInt :=
    clamp_lt_iff (by rw [skew]; omega) now
  rw [checkTimes, ← Int.not_lt, ← Int.not_lt, ← hissued, ← hexpired]
  by_cases hi : now < clamp (t.issuedAt.toInt - skew)
  · simp [hi]
  · by_cases he : clamp (t.expires.toInt + skew) < now <;> simp [hi, he]

/-- A content is accepted for its parts, their header and their claims. -/
theorem checkContent_eq_ok_iff :
    v.checkContent token = .ok (h, t) ↔
      v.project ≠ "" ∧ ∃ p, parts token = .ok p ∧
        (if v.emulator then checkEmulated p.header else checkSigned p.header p.token) = .ok () ∧
        v.checkClaims p.token = .ok () ∧ p.header = h ∧ p.settled = t := by
  by_cases hproject : v.project = ""
  · have hrefused : v.checkContent token = .error .noProject := by
      rw [checkContent, if_pos hproject]
      rfl
    simp [hrefused, hproject]
  cases hp : parts token with
  | error r => simp [checkContent_of_unread hproject hp]
  | ok p =>
    rw [checkContent_of_parts hproject hp]
    constructor
    · intro hc
      obtain ⟨⟨⟩, hheader, hc⟩ := ok_of_bind hc
      obtain ⟨⟨⟩, hclaims, hc⟩ := ok_of_bind hc
      cases hc
      exact ⟨hproject, p, rfl, hheader, hclaims, rfl, rfl⟩
    · rintro ⟨-, q, hq, hheader, hclaims, rfl, rfl⟩
      obtain rfl := Except.ok.inj hq
      rw [hheader, hclaims]
      rfl

/-- Signed contents are emulated contents whose header names a key and says how it signed. -/
theorem checkContent_signed_iff (keys keys' : KeySource) :
    (signed kind project keys).checkContent token = .ok (h, t) ↔
      (emulated kind project keys').checkContent token = .ok (h, t) ∧ h.algorithm = "RS256" ∧
        ∃ kid, h.keyId? = some kid := by
  rw [checkContent_eq_ok_iff, checkContent_eq_ok_iff]
  constructor
  · rintro ⟨hproject, p, hp, hheader, hclaims, rfl, rfl⟩
    obtain ⟨halgorithm, hkid⟩ := checkSigned_eq_ok_iff.mp hheader
    have hemulated : checkEmulated p.header = .ok () :=
      checkEmulated_eq_ok_iff.mpr (.inl halgorithm)
    exact ⟨⟨hproject, p, hp, hemulated, hclaims, rfl, rfl⟩, halgorithm, hkid⟩
  · rintro ⟨⟨hproject, p, hp, -, hclaims, rfl, rfl⟩, hheader⟩
    exact ⟨hproject, p, hp, checkSigned_eq_ok_iff.mpr hheader, hclaims, rfl, rfl⟩

/-- The parts are what is read of the segments. -/
theorem segments_of_parts (hp : parts token = .ok p) :
    ∃ s, Segments.split token = .ok s ∧ s.readHeader = .ok p.header ∧
      s.readPayload IdToken.decode = .ok p.token ∧ s.readPayload Json.readObject = .ok p.claims := by
  let a : Attempt := ⟨emulated .idToken "" .custom, token, 0, .error .cancelled⟩
  obtain ⟨hh, ht, hm⟩ := Attempt.parts_ok (a := a) hp
  obtain ⟨s, hs, hread⟩ := ok_of_bind hh
  obtain ⟨eh, et, em⟩ := Attempt.readable_of_split (a := a) hs
  exact ⟨s, hs, hread, et.symm.trans ht, em.symm.trans hm⟩

/-! ## The verification -/

/-- What is left of a verification once the content is accepted and the clock is read. -/
def afterClock (v : Verifier) (h : JwtHeader) (t : IdToken) (token : String) (now : Int64) :
    Call IdToken := do
  v.reject (checkTimes now t)
  if !v.emulator then v.checkSignature h token
  return t

theorem verify_of_accepted (hc : v.checkContent token = .ok (h, t)) :
    v.verify token = .ask .time (v.afterClock h t token) := by
  rw [verify, hc]
  rfl

theorem afterClock_emulated :
    (emulated kind project keys).afterClock h t token now =
      .done ((checkTimes now t >>= fun _ => .ok t).mapError (·.error kind)) := by
  rw [afterClock]
  cases checkTimes now t <;> rfl

/-- Whatever comes of the signature, nothing but the content is handed out, and only in time. -/
theorem of_afterClock {u : IdToken} (hends : (v.afterClock h t token now).MayEnd (.ok u)) :
    u = t ∧ checkTimes now t = .ok () := by
  rw [afterClock] at hends
  obtain ⟨⟨⟩, htimes, hends⟩ := hends.of_bind
  have hresult : u = t := by
    cases he : v.emulator with
    | true =>
      rw [he] at hends
      exact Except.ok.inj (Call.mayEnd_done.mp hends)
    | false =>
      rw [he] at hends
      change (v.checkSignature h token >>= fun _ => pure t).MayEnd (.ok u) at hends
      obtain ⟨_, -, hends⟩ := hends.of_bind
      exact Except.ok.inj (Call.mayEnd_done.mp hends)
  refine ⟨hresult, ?_⟩
  have hreject := Call.mayEnd_done.mp htimes
  cases hcheck : checkTimes now t with
  | error r =>
    rw [hcheck] at hreject
    cases hreject
  | ok _ => rfl

/-- However a verification comes to a token, it is what the content comes to. -/
theorem checkContent_of_mayEnd (hends : (v.verify token).MayEnd (.ok t)) :
    ∃ h, v.checkContent token = .ok (h, t) := by
  cases hc : v.checkContent token with
  | error r =>
    rw [verify_of_refused hc] at hends
    cases Call.mayEnd_done.mp hends
  | ok got =>
    obtain ⟨h, u⟩ := got
    rw [verify_of_accepted hc] at hends
    cases hends with
    | ask now hends => exact ⟨h, by rw [(of_afterClock hends).1]⟩

section Runs

variable {outside : Outside} {w : World}

theorem run_checkSignature_eq_ok_iff :
    ((v.checkSignature h token).run outside w).1 = .ok () ↔
      ∃ s, ((v.keys.keys v.kind).run outside w).1 = .ok s ∧
        isSigned s h.keyId? token = true := by
  rw [run_checkSignature]
  rcases (v.keys.keys v.kind).run outside w with ⟨e | s, w'⟩
  · simp
  · cases hs : isSigned s h.keyId? token <;> simp [hs]

theorem run_afterClock_eq_ok_iff {u : IdToken} :
    ((v.afterClock h t token now).run outside w).1 = .ok u ↔
      t = u ∧ checkTimes now t = .ok () ∧
        (v.emulator = false → ((v.checkSignature h token).run outside w).1 = .ok ()) := by
  rw [afterClock, Call.run_bind, Call.run_lift]
  cases checkTimes now t with
  | error r => simp [reject_error]
  | ok _ =>
    cases he : v.emulator with
    | true => simp [reject_ok]
    | false =>
      change ((v.checkSignature h token >>= fun _ => pure t).run outside w).1 = .ok u ↔ _
      rw [Call.run_bind]
      rcases (v.checkSignature h token).run outside w with ⟨e | ⟨⟩, w'⟩ <;> simp

/-- A run accepts for the content, the time and, if it looks at it, the signature. -/
theorem run_verify_eq_ok_iff :
    ((v.verify token).run outside w).1 = .ok t ↔
      ∃ h, v.checkContent token = .ok (h, t) ∧ checkTimes (w.clock outside) t = .ok () ∧
        (v.emulator = false →
          ∃ s, ((v.keys.keys v.kind).run outside (w.timed outside)).1 = .ok s ∧
            isSigned s h.keyId? token = true) := by
  cases hc : v.checkContent token with
  | error r => simp [verify_of_refused hc]
  | ok got =>
    obtain ⟨h, u⟩ := got
    have hrun : (v.verify token).run outside w =
        (v.afterClock h u token (w.clock outside)).run outside (w.timed outside) := by
      rw [verify_of_accepted hc, Call.run]
      cases w.cancelled <;> rfl
    rw [hrun, run_afterClock_eq_ok_iff, run_checkSignature_eq_ok_iff]
    constructor
    · rintro ⟨rfl, htimes, hsigned⟩
      exact ⟨h, rfl, htimes, hsigned⟩
    · rintro ⟨_, hcontent, htimes, hsigned⟩
      cases hcontent
      exact ⟨rfl, htimes, hsigned⟩

end Runs

/-! ## Both modes -/

/-- What a verifier asks of a token besides its signature. -/
structure Conforms (kind : Kind) (project : String) (now : Int64) (t : IdToken) : Prop where
  named : project ≠ ""
  audience : t.audience = project
  issuer : t.issuer = kind.issuerStart ++ project
  subject : 1 ≤ t.subject.length ∧ t.subject.length ≤ 128
  issued : t.issuedAt.toInt - 300 ≤ now.toInt
  unexpired : now.toInt ≤ t.expires.toInt + 300

/-- The token says that it is signed, and so it is, by the key that it names. -/
def Vouched (token : String) (answer : Except AuthError KeySnapshot) : Prop :=
  ∃ s h kid snapshot key, Segments.split token = .ok s ∧ s.readHeader = .ok h ∧
    h.algorithm = "RS256" ∧ h.keyId = some kid ∧ kid ≠ "" ∧ answer = .ok snapshot ∧
    snapshot.get? kid = some key ∧ key.verifies token = true

/-- What the two modes of verifiers of one kind and project have to do with each other. -/
structure DropsSignatureAlone (kind : Kind) (project : String) : Prop where
  /-- At one reading of the clock the two accept the same tokens with the same result, but for
  their signatures. -/
  accepted_iff : ∀ keys keys' token outside outside' w w' t,
    World.clock w outside = World.clock w' outside' →
      ((((signed kind project keys).verify token).run outside w).1 = .ok t ↔
        (((emulated kind project keys').verify token).run outside' w').1 = .ok t ∧
          Vouched token ((keys.keys kind).run outside (w.timed outside)).1)
  /-- However the verification of a signed token may come to accept it, whatever is remembered and
  done by others meanwhile, the emulated one accepted it when the clock was read. -/
  accepted_before : ∀ keys keys' token t,
    ((signed kind project keys).verify token).MayEnd (.ok t) →
      ∃ rest rest', (signed kind project keys).verify token = .ask .time rest ∧
        (emulated kind project keys').verify token = .ask .time rest' ∧
        ∀ now u, (rest now).MayEnd (.ok u) → rest' now = .done (.ok u)
  /-- An emulated verification is the same for all signatures and all key sources. -/
  ignored : ∀ keys keys' token token' s s',
    Segments.split token = .ok s → Segments.split token' = .ok s' → s.header = s'.header →
      s.payload = s'.payload →
      (emulated kind project keys).verify token = (emulated kind project keys').verify token'
  /-- It asks for the time at most. -/
  asked : ∀ keys token, ((emulated kind project keys).verify token).Only (· = .ask .time)
  /-- What is accepted conforms in both modes. -/
  conforms : ∀ emulator keys token outside w t,
    (((Verifier.mk kind project emulator keys).verify token).run outside w).1 = .ok t →
      Conforms kind project (World.clock w outside) t
  /-- An emulated verifier accepts two algorithms. -/
  algorithm : ∀ keys token outside w t,
    (((emulated kind project keys).verify token).run outside w).1 = .ok t →
      ∃ s h, Segments.split token = .ok s ∧ s.readHeader = .ok h ∧
        (h.algorithm = "RS256" ∨ h.algorithm = "none")
  /-- No more is asked of a token with one of them that can be read. -/
  accepts : ∀ keys token outside w s h typed members, Segments.split token = .ok s →
    s.readHeader = .ok h → (h.algorithm = "RS256" ∨ h.algorithm = "none") →
    s.readPayload IdToken.decode = .ok typed → s.readPayload Json.readObject = .ok members →
    Conforms kind project (World.clock w outside) typed →
    (((emulated kind project keys).verify token).run outside w).1 =
      .ok (Parts.mk h typed members).settled
  /-- An unsigned token is accepted by no verifier of signed ones. -/
  unsigned : ∀ keys token s h t, Segments.split token = .ok s → s.readHeader = .ok h →
    h.algorithm = "none" → ¬ ((signed kind project keys).verify token).MayEnd (.ok t)

/-- What a content says of its header can be read off the token. -/
theorem readHeader_of_checkContent (hc : v.checkContent token = .ok (h, t)) :
    ∃ s, Segments.split token = .ok s ∧ s.readHeader = .ok h := by
  obtain ⟨-, p, hp, -, -, rfl, -⟩ := checkContent_eq_ok_iff.mp hc
  obtain ⟨s, hs, hh, -⟩ := segments_of_parts hp
  exact ⟨s, hs, hh⟩

theorem keyId?_eq_some_iff {kid : String} :
    h.keyId? = some kid ↔ h.keyId = some kid ∧ kid ≠ "" := by
  rw [JwtHeader.keyId?, Option.filter_eq_some_iff]
  simp

theorem isSigned_some {snapshot : KeySnapshot} {kid : String} :
    isSigned snapshot (some kid) token = true ↔
      ∃ key, snapshot.get? kid = some key ∧ key.verifies token = true := by
  cases h : snapshot.get? kid <;> simp [isSigned, h]

/-- For an emulated content, being vouched for is what a verifier of signed tokens adds. -/
theorem vouched_iff {answer : Except AuthError KeySnapshot} (keys : KeySource)
    (hc : (emulated kind project keys').checkContent token = .ok (h, t)) :
    Vouched token answer ↔ (signed kind project keys).checkContent token = .ok (h, t) ∧
      ∃ snapshot, answer = .ok snapshot ∧ isSigned snapshot h.keyId? token = true := by
  rw [checkContent_signed_iff keys keys']
  obtain ⟨s, hs, hh⟩ := readHeader_of_checkContent hc
  constructor
  · rintro ⟨s', h', kid, snapshot, key, hs', hh', halgorithm, hkid, hne, hanswer, hkey, hv⟩
    cases hs.symm.trans hs'
    cases hh.symm.trans hh'
    have hkid? : h.keyId? = some kid := keyId?_eq_some_iff.mpr ⟨hkid, hne⟩
    refine ⟨⟨hc, halgorithm, kid, hkid?⟩, snapshot, hanswer, ?_⟩
    rw [hkid?]
    exact isSigned_some.mpr ⟨key, hkey, hv⟩
  · rintro ⟨⟨-, halgorithm, kid, hkid?⟩, snapshot, hanswer, hsigned⟩
    obtain ⟨hkid, hne⟩ := keyId?_eq_some_iff.mp hkid?
    rw [hkid?] at hsigned
    obtain ⟨key, hkey, hv⟩ := isSigned_some.mp hsigned
    exact ⟨s, h, kid, snapshot, key, hs, hh, halgorithm, hkid, hne, hanswer, hkey, hv⟩

theorem conforms_of_checkContent (hc : v.checkContent token = .ok (h, t))
    (htimes : checkTimes now t = .ok ()) : Conforms v.kind v.project now t := by
  obtain ⟨hproject, p, -, -, hclaims, -, rfl⟩ := checkContent_eq_ok_iff.mp hc
  obtain ⟨haudience, hissuer, hsubject⟩ := checkClaims_eq_ok_iff.mp hclaims
  obtain ⟨hissued, hunexpired⟩ := checkTimes_eq_ok_iff.mp htimes
  exact ⟨hproject, haudience, hissuer, hsubject, hissued, hunexpired⟩

/-- The content of an emulated verification does not depend on the signature. -/
theorem checkContent_emulated_congr {s s' : Segments} (keys keys' : KeySource)
    (hs : Segments.split token = .ok s) (hs' : Segments.split token' = .ok s')
    (hheader : s.header = s'.header) (hpayload : s.payload = s'.payload) :
    (emulated kind project keys).checkContent token =
      (emulated kind project keys').checkContent token' := by
  have hparts : parts token = parts token' := by
    rw [parts_of_split hs, parts_of_split hs']
    unfold Segments.readHeader Segments.readPayload
    rw [hheader, hpayload]
  rw [checkContent, checkContent, hparts]
  rfl

/-- **An emulator drops the signature alone**, whatever the kind and the project are. -/
theorem dropsSignatureAlone (kind : Kind) (project : String) :
    DropsSignatureAlone kind project where
  accepted_iff keys keys' token outside outside' w w' t hclock := by
    rw [run_verify_eq_ok_iff, run_verify_eq_ok_iff, hclock]
    constructor
    · rintro ⟨h, hc, htimes, hsigned⟩
      have hemulated := (checkContent_signed_iff keys keys').mp hc
      exact ⟨⟨h, hemulated.1, htimes, nofun⟩, (vouched_iff keys hemulated.1).mpr ⟨hc, hsigned rfl⟩⟩
    · rintro ⟨⟨h, hc, htimes, -⟩, hvouched⟩
      obtain ⟨hsignedContent, hsigned⟩ := (vouched_iff keys hc).mp hvouched
      exact ⟨h, hsignedContent, htimes, fun _ => hsigned⟩
  accepted_before keys keys' token t hends := by
    obtain ⟨h, hc⟩ := checkContent_of_mayEnd hends
    have hemulated := ((checkContent_signed_iff keys keys').mp hc).1
    refine ⟨_, _, verify_of_accepted hc, verify_of_accepted hemulated, fun now u hrest => ?_⟩
    obtain ⟨rfl, htimes⟩ := of_afterClock hrest
    rw [afterClock_emulated, htimes]
    rfl
  ignored keys keys' token token' s s' hs hs' hheader hpayload := by
    rw [verify, verify, checkContent_emulated_congr keys keys' hs hs' hheader hpayload]
    rfl
  asked keys token := by
    rcases hc : (emulated kind project keys).checkContent token with r | ⟨h, t⟩
    · rw [verify, hc]
      exact Call.only_fail _
    · rw [verify_of_accepted hc]
      refine ⟨rfl, fun now => ?_⟩
      rw [afterClock_emulated]
      exact Call.only_done _
  conforms emulator keys token outside w t hr := by
    obtain ⟨h, hc, htimes, -⟩ := run_verify_eq_ok_iff.mp hr
    exact conforms_of_checkContent hc htimes
  algorithm keys token outside w t hr := by
    obtain ⟨h, hc, -⟩ := run_verify_eq_ok_iff.mp hr
    obtain ⟨s, hs, hh⟩ := readHeader_of_checkContent hc
    obtain ⟨-, p, -, hheader, -, rfl, -⟩ := checkContent_eq_ok_iff.mp hc
    exact ⟨s, p.header, hs, hh, checkEmulated_eq_ok_iff.mp hheader⟩
  accepts keys token outside w s h typed members hs hh halgorithm ht hm hconforms := by
    have hparts : parts token = .ok ⟨h, typed, members⟩ := by
      rw [parts_of_split hs, hh, ht, hm]
      rfl
    have hclaims := checkClaims_eq_ok_iff (v := emulated kind project keys) (t := typed).mpr
      ⟨hconforms.audience, hconforms.issuer, hconforms.subject⟩
    have hcontent := checkContent_eq_ok_iff (v := emulated kind project keys).mpr
      ⟨hconforms.named, _, hparts, checkEmulated_eq_ok_iff.mpr halgorithm, hclaims, rfl, rfl⟩
    exact run_verify_eq_ok_iff.mpr
      ⟨h, hcontent, checkTimes_eq_ok_iff.mpr ⟨hconforms.issued, hconforms.unexpired⟩, nofun⟩
  unsigned keys token s h t hs hh hnone hends := by
    obtain ⟨h', hc⟩ := checkContent_of_mayEnd hends
    obtain ⟨s', hs', hh'⟩ := readHeader_of_checkContent hc
    cases hs.symm.trans hs'
    cases hh.symm.trans hh'
    have halgorithm := ((checkContent_signed_iff keys keys).mp hc).2.1
    exact absurd (hnone.symm.trans halgorithm) (by decide)

end IdentityTokens.Verifier
