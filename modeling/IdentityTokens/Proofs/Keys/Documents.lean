import IdentityTokens.Proofs.Json.Accord
import IdentityTokens.Proofs.Keys.Fetches
import IdentityTokens.Keys.Source

/-! # Key documents, whole or not at all

A key document is an object of texts. It gives its keys if each of its certificates does, the last
one under each ID, and no key at all otherwise. The certificates stand in a map, which may be gone
through in any order; what comes of it is the same in each, and the same as for a map that was not
read but handed over. -/
namespace IdentityTokens

namespace Json

open Reader

variable {room : Nat} {s rest : Bytes} {t : String}

/-! ## Objects of texts -/

/-- Members that are texts, as members. -/
def texts (ms : List (String × String)) : List (String × Json) := ms.map fun m => (m.1, .text m.2)

theorem of_literal? {b : UInt8} {cs : List Char} {v : Json} (h : literal? b = some (cs, v)) :
    v = .null ∨ ∃ x, v = .bool x := by
  rw [literal?] at h
  split at h
  · cases h
    exact .inl rfl
  split at h
  · cases h
    exact .inr ⟨true, rfl⟩
  split at h
  · cases h
    exact .inr ⟨false, rfl⟩
  · cases h

/-- A text is read behind a quote. -/
theorem text_of_value (h : value room s = .ok (.text t, rest)) :
    ∃ r, skipBlanks s = Quotation.quote :: r ∧ Quotation.read r = .ok (t, rest) := by
  generalize hv : Json.text t = v at h
  cases valueAt_of_value h with
  | text hs hread =>
    cases hv
    exact ⟨_, hs, hread⟩
  | literal hs hb hread => rcases of_literal? hb with rfl | ⟨x, rfl⟩ <;> cases hv
  | @negative _ _ _ _ n => cases n <;> cases hv
  | @natural _ _ _ _ _ n => cases n <;> cases hv
  | array => cases hv
  | object => cases hv

/-- An object is read behind a brace. -/
theorem members_of_value {ms : List (String × Json)} (h : value room s = .ok (.object ms, rest)) :
    ∃ room' r, room = room' + 1 ∧ skipBlanks s = openObject :: r ∧
      members (value room') (r.length + 1) true r = .ok (ms, rest) := by
  generalize hv : Json.object ms = v at h
  cases valueAt_of_value h with
  | object hs hread =>
    cases hv
    exact ⟨_, _, rfl, hs, hread⟩
  | literal hs hb hread => rcases of_literal? hb with rfl | ⟨x, rfl⟩ <;> cases hv
  | @negative _ _ _ _ n => cases n <;> cases hv
  | @natural _ _ _ _ _ n => cases n <;> cases hv
  | array => cases hv
  | text => cases hv

theorem text_eq_ok_iff (room : Nat) :
    Reader.text s = .ok (t, rest) ↔ value room s = .ok (.text t, rest) := by
  refine ⟨value_of_text, fun h => ?_⟩
  obtain ⟨r, hs, hread⟩ := text_of_value h
  rw [Reader.text, hs]
  exact hread

theorem members_text_eq_ok_iff (room : Nat) {fuel : Nat} {first : Bool}
    {ms : List (String × String)} :
    members Reader.text fuel first s = .ok (ms, rest) ↔
      members (value room) fuel first s = .ok (texts ms, rest) := by
  induction fuel generalizing first s ms with
  | zero => exact ⟨nofun, nofun⟩
  | succ fuel ih =>
    constructor
    · intro h
      obtain ⟨⟨name, r⟩, hname, h⟩ := ok_of_bind h
      rw [members, hname]
      cases name with
      | none =>
        cases h
        rfl
      | some name =>
        obtain ⟨u, hcolon, h⟩ := ok_of_bind h
        obtain ⟨⟨t, u'⟩, ht, h⟩ := ok_of_bind h
        obtain ⟨⟨more, u''⟩, hmore, h⟩ := ok_of_bind h
        cases h
        change (colonThen r >>= _) = _
        rw [hcolon]
        change (value room u >>= _) = _
        rw [(text_eq_ok_iff room).mp ht]
        change (members (value room) fuel false u' >>= _) = _
        rw [ih.mp hmore]
        rfl
    · intro h
      obtain ⟨⟨name, r⟩, hname, h⟩ := ok_of_bind h
      rw [members, hname]
      cases name with
      | none =>
        obtain ⟨hms, rfl⟩ := Prod.mk.inj (Except.ok.inj h)
        rw [List.map_eq_nil_iff.mp hms.symm]
        rfl
      | some name =>
        obtain ⟨u, hcolon, h⟩ := ok_of_bind h
        obtain ⟨⟨w, u'⟩, hw, h⟩ := ok_of_bind h
        obtain ⟨⟨more, u''⟩, hmore, h⟩ := ok_of_bind h
        obtain ⟨hms, rfl⟩ := Prod.mk.inj (Except.ok.inj h)
        obtain ⟨⟨_, t⟩, ms, rfl, hm, rfl⟩ := List.map_eq_cons_iff.mp hms.symm
        cases hm
        change (colonThen r >>= _) = _
        rw [hcolon]
        change (Reader.text u >>= _) = _
        rw [(text_eq_ok_iff room).mpr hw]
        change (members Reader.text fuel false u' >>= _) = _
        rw [ih.mpr hmore]
        rfl

theorem map_text_eq_ok_iff {ms : List (String × String)} :
    Reader.map room (fun _ => Reader.text) s = .ok (ms, rest) ↔
      value room s = .ok (.object (texts ms), rest) := by
  constructor
  · intro h
    unfold Reader.map at h
    split at h
    · cases h
    rename_i b r hs
    obtain ⟨rfl, hread⟩ := ok_of_guard h
    cases room with
    | zero => cases hread
    | succ room =>
      change members Reader.text (r.length + 1) true r = .ok (ms, rest) at hread
      rw [value_of_blanks hs, value_object, (members_text_eq_ok_iff room).mp hread]
      rfl
  · intro h
    obtain ⟨room, r, rfl, hs, hread⟩ := members_of_value h
    rw [Reader.map, hs]
    exact (members_text_eq_ok_iff room).mpr hread

end Json

/-! ## Keys of certificates -/

theorem TrustedKey.of_ofPem {kid : String} {pem : Bytes} {k : TrustedKey}
    (h : TrustedKey.ofPem kid pem = .ok k) : kid ≠ "" ∧ k.kid = kid := by
  rw [TrustedKey.ofPem] at h
  obtain ⟨hkid, h⟩ := ok_of_refusal h
  refine ⟨hkid, ?_⟩
  split at h
  · cases h
    rfl
  · cases h

namespace KeyDocument

open Json

variable {body : Bytes} {cs cs' ms : List (String × String)} {keys keys' : List TrustedKey}
  {kid pem : String} {k : TrustedKey} {expiresAt : Int64}

/-- The key of a certificate, if it gives one. -/
def key? (c : String × String) : Option TrustedKey :=
  (TrustedKey.ofPem c.1 (Text.bytes c.2)).toOption

theorem key?_eq_some_iff {c : String × String} :
    key? c = some k ↔ TrustedKey.ofPem c.1 (Text.bytes c.2) = .ok k := toOption_eq_some

/-- Certificates give their keys if each gives its key. -/
theorem keysOf_eq_ok_iff :
    keysOf cs = .ok keys ↔ (∀ c ∈ cs, (key? c).isSome) ∧ keys = cs.filterMap key? := by
  rw [keysOf]
  induction cs generalizing keys with
  | nil =>
    constructor
    · rintro ⟨⟩
      exact ⟨fun _ h => absurd h List.not_mem_nil, rfl⟩
    · rintro ⟨-, rfl⟩
      rfl
  | cons c cs ih =>
    rw [List.mapM_cons, List.forall_mem_cons]
    constructor
    · intro h
      obtain ⟨k, hk, h⟩ := ok_of_bind h
      obtain ⟨ks, hks, h⟩ := ok_of_bind h
      cases h
      obtain ⟨hall, hkeys⟩ := ih.mp hks
      have hkey := key?_eq_some_iff.mpr hk
      exact ⟨⟨Option.isSome_of_eq_some hkey, hall⟩, by rw [List.filterMap_cons_some hkey, hkeys]⟩
    · rintro ⟨⟨hc, hall⟩, rfl⟩
      obtain ⟨k, hk⟩ := Option.isSome_iff_exists.mp hc
      rw [key?_eq_some_iff.mp hk, ih.mpr ⟨hall, rfl⟩, List.filterMap_cons_some hk]
      rfl

theorem names_of_keysOf (h : keysOf cs = .ok keys) : keys.map (·.kid) = names cs := by
  obtain ⟨hall, rfl⟩ := keysOf_eq_ok_iff.mp h
  clear h
  induction cs with
  | nil => rfl
  | cons c cs ih =>
    obtain ⟨hc, hall⟩ := List.forall_mem_cons.mp hall
    obtain ⟨k, hk⟩ := Option.isSome_iff_exists.mp hc
    rw [List.filterMap_cons_some hk, List.map_cons, ih hall,
      (TrustedKey.of_ofPem (key?_eq_some_iff.mp hk)).2]
    rfl

theorem mem_of_keysOf (h : keysOf cs = .ok keys) :
    k ∈ keys ↔ ∃ pem, (k.kid, pem) ∈ cs ∧ TrustedKey.ofPem k.kid (Text.bytes pem) = .ok k := by
  obtain ⟨-, rfl⟩ := keysOf_eq_ok_iff.mp h
  rw [List.mem_filterMap]
  constructor
  · rintro ⟨⟨kid, pem⟩, hmem, hk⟩
    have hpem := key?_eq_some_iff.mp hk
    obtain rfl := (TrustedKey.of_ofPem hpem).2
    exact ⟨pem, hmem, hpem⟩
  · rintro ⟨pem, hmem, hk⟩
    exact ⟨_, hmem, key?_eq_some_iff.mpr hk⟩

/-- In another order there are the same keys, in another order. -/
theorem keysOf_of_perm (hperm : cs.Perm cs') (h : keysOf cs = .ok keys) :
    ∃ keys', keysOf cs' = .ok keys' ∧ keys.Perm keys' := by
  obtain ⟨hall, rfl⟩ := keysOf_eq_ok_iff.mp h
  exact ⟨_, keysOf_eq_ok_iff.mpr ⟨fun c hc => hall c (hperm.mem_iff.mpr hc), rfl⟩,
    hperm.filterMap _⟩

/-! ## Snapshots of keys -/

theorem keys_ofKeys (h : (keys.map (·.kid)).Nodup) :
    (KeySnapshot.ofKeys keys expiresAt).keys = keys := by
  have hnames : names (keys.map fun k => (k.kid, k)) = keys.map (·.kid) := by
    rw [names, List.map_map]
    rfl
  rw [KeySnapshot.ofKeys, settleMembers_of_nodup (hnames ▸ h), List.map_map]
  exact List.map_id keys

theorem get?_ofKeys_eq_some_iff (h : (keys.map (·.kid)).Nodup) :
    (KeySnapshot.ofKeys keys expiresAt).get? kid = some k ↔ k ∈ keys ∧ k.kid = kid := by
  rw [KeySnapshot.get?, keys_ofKeys h]
  constructor
  · intro hfind
    exact ⟨List.mem_of_find?_eq_some hfind, by simpa using List.find?_some hfind⟩
  · rintro ⟨hmem, rfl⟩
    cases hfind : keys.find? (·.kid = k.kid) with
    | none => exact absurd (decide_eq_true rfl) (List.find?_eq_none.mp hfind k hmem)
    | some k' =>
      have hkid : k'.kid = k.kid := by simpa using List.find?_some hfind
      exact congrArg some (List.inj_on_of_nodup_map h (List.mem_of_find?_eq_some hfind) hmem hkid)

/-- A sorted list tells nothing of the order that there was before. -/
theorem mergeSort_of_perm {xs ys : List String} (h : xs.Perm ys) :
    xs.mergeSort (· ≤ ·) = ys.mergeSort (· ≤ ·) := by
  have hsorted (l : List String) : (l.mergeSort (· ≤ ·)).Pairwise (· ≤ ·) := by
    have hpairwise := @List.pairwise_mergeSort String (fun a b => decide (a ≤ b))
      (by simpa using fun _ _ _ => String.le_trans) (by simpa using String.le_total) l
    simpa using hpairwise
  exact List.Perm.eq_of_pairwise (fun _ _ _ _ => String.le_antisymm) (hsorted xs) (hsorted ys)
    (((List.mergeSort_perm xs _).trans h).trans (List.mergeSort_perm ys _).symm)

/-- Two snapshots that nobody can tell apart: they hold the same keys, under the same IDs, for the
same time. -/
structure Same (s s' : KeySnapshot) : Prop where
  keys : s.keys.Perm s'.keys
  get? : ∀ kid, s.get? kid = s'.get? kid
  kids : s.kids = s'.kids
  expiresAt : s.expiresAt = s'.expiresAt

theorem same_ofKeys (h : (keys.map (·.kid)).Nodup) (hperm : keys.Perm keys') (expiresAt : Int64) :
    Same (KeySnapshot.ofKeys keys expiresAt) (KeySnapshot.ofKeys keys' expiresAt) := by
  have h' : (keys'.map (·.kid)).Nodup := (hperm.map _).nodup_iff.mp h
  refine ⟨?_, fun kid => Option.ext fun k => ?_, ?_, rfl⟩
  · rwa [keys_ofKeys h, keys_ofKeys h']
  · rw [get?_ofKeys_eq_some_iff h, get?_ofKeys_eq_some_iff h', hperm.mem_iff]
  · rw [KeySnapshot.kids, KeySnapshot.kids, keys_ofKeys h, keys_ofKeys h']
    exact mergeSort_of_perm (hperm.map _)

/-! ## Documents -/

theorem certificates_eq_ok_iff :
    certificates body = .ok cs ↔
      ∃ ms, readRaw body = .ok (.object (texts ms)) ∧ cs = settleMembers ms := by
  have hdocument (ms : List (String × String)) :
      Reader.document (Reader.map Reader.maxDepth fun _ => Reader.text) body = .ok ms ↔
        readRaw body = .ok (.object (texts ms)) := by
    rw [readRaw, document_eq_ok_iff, document_eq_ok_iff]
    exact exists_congr fun rest => and_congr_left' map_text_eq_ok_iff
  rw [certificates]
  constructor
  · intro h
    obtain ⟨ms, hms, rfl⟩ := ok_of_map h
    exact ⟨ms, (hdocument ms).mp hms, rfl⟩
  · rintro ⟨ms, hms, rfl⟩
    rw [(hdocument ms).mpr hms]
    rfl

theorem texts_injective {ms ms' : List (String × String)} (h : texts ms = texts ms') : ms = ms' :=
  List.map_injective_iff.mpr (fun a b hab => by
    obtain ⟨hname, htext⟩ := Prod.mk.inj hab
    exact Prod.ext hname (Json.text.inj htext)) h

theorem read_eq_ok_iff :
    read body = .ok keys ↔ ∃ cs, certificates body = .ok cs ∧ keysOf cs = .ok keys := by
  rw [read]
  cases certificates body with
  | error e =>
    constructor
    · rintro ⟨⟩
    · rintro ⟨_, ⟨⟩, -⟩
  | ok cs =>
    constructor
    · intro h
      exact ⟨cs, rfl, h⟩
    · rintro ⟨_, ⟨⟩, h⟩
      exact h

theorem nodup_names_certificates (h : certificates body = .ok cs) : (names cs).Nodup := by
  obtain ⟨ms, -, rfl⟩ := certificates_eq_ok_iff.mp h
  exact nodup_names_settleMembers ms

/-- The keys of a document under their IDs. -/
theorem nodup_kids_of_read (h : read body = .ok keys) : (keys.map (·.kid)).Nodup := by
  obtain ⟨cs, hcs, hkeys⟩ := read_eq_ok_iff.mp h
  rw [names_of_keysOf hkeys]
  exact nodup_names_certificates hcs

theorem exists_read_iff :
    (∃ keys, read body = .ok keys) ↔ ∃ ms, readRaw body = .ok (.object (texts ms)) ∧
      ∀ kid pem, lookup kid ms.reverse = some pem →
        kid ≠ "" ∧ ∃ k, TrustedKey.ofPem kid (Text.bytes pem) = .ok k := by
  constructor
  · rintro ⟨keys, h⟩
    obtain ⟨cs, hcs, hkeys⟩ := read_eq_ok_iff.mp h
    obtain ⟨ms, hms, rfl⟩ := certificates_eq_ok_iff.mp hcs
    refine ⟨ms, hms, fun kid pem hpem => ?_⟩
    obtain ⟨k, hk⟩ := Option.isSome_iff_exists.mp
      ((keysOf_eq_ok_iff.mp hkeys).1 _ (mem_settleMembers.mpr hpem))
    have hofPem := key?_eq_some_iff.mp hk
    exact ⟨(TrustedKey.of_ofPem hofPem).1, k, hofPem⟩
  · rintro ⟨ms, hms, hall⟩
    refine ⟨_, read_eq_ok_iff.mpr ⟨_, certificates_eq_ok_iff.mpr ⟨ms, hms, rfl⟩,
      keysOf_eq_ok_iff.mpr ⟨?_, rfl⟩⟩⟩
    rintro ⟨kid, pem⟩ hmem
    obtain ⟨-, k, hk⟩ := hall kid pem (mem_settleMembers.mp hmem)
    exact Option.isSome_of_eq_some (key?_eq_some_iff.mpr hk)

theorem mem_kids_iff (h : read body = .ok keys) (hraw : readRaw body = .ok (.object (texts ms))) :
    kid ∈ keys.map (·.kid) ↔ kid ∈ names ms := by
  obtain ⟨cs, hcs, hkeys⟩ := read_eq_ok_iff.mp h
  obtain ⟨ms', hms, rfl⟩ := certificates_eq_ok_iff.mp hcs
  obtain rfl := texts_injective (Json.object.inj (Except.ok.inj (hraw.symm.trans hms)))
  rw [names_of_keysOf hkeys, mem_names_settleMembers]

theorem get?_of_read (h : read body = .ok keys) (hraw : readRaw body = .ok (.object (texts ms))) :
    (KeySnapshot.ofKeys keys expiresAt).get? kid = some k ↔
      ∃ pem, lookup kid ms.reverse = some pem ∧
        TrustedKey.ofPem kid (Text.bytes pem) = .ok k := by
  have hnodup := nodup_kids_of_read h
  obtain ⟨cs, hcs, hkeys⟩ := read_eq_ok_iff.mp h
  obtain ⟨ms', hms, rfl⟩ := certificates_eq_ok_iff.mp hcs
  obtain rfl := texts_injective (Json.object.inj (Except.ok.inj (hraw.symm.trans hms)))
  rw [get?_ofKeys_eq_some_iff hnodup, mem_of_keysOf hkeys]
  constructor
  · rintro ⟨⟨pem, hmem, hk⟩, rfl⟩
    exact ⟨pem, mem_settleMembers.mp hmem, hk⟩
  · rintro ⟨pem, hpem, hk⟩
    obtain rfl := (TrustedKey.of_ofPem hk).2
    exact ⟨⟨pem, mem_settleMembers.mpr hpem, hk⟩, rfl⟩

theorem code_of_keysOf {e : AuthError} (h : keysOf cs = .error e) :
    e.code = .certificateFetchFailed := by
  obtain ⟨message, rfl⟩ := PublishedKeys.certificateError_of_keysOf h
  rfl

theorem code_of_read {e : AuthError} (h : read body = .error e) :
    e.code = .certificateFetchFailed := by
  obtain ⟨message, rfl⟩ := PublishedKeys.certificateError_of_read h
  rfl

theorem exists_keysOf_of_perm (hcs : certificates body = .ok cs) (hperm : cs.Perm cs') :
    (∃ keys, read body = .ok keys) ↔ ∃ keys', keysOf cs' = .ok keys' := by
  constructor
  · rintro ⟨keys, h⟩
    obtain ⟨_, hcs', hkeys⟩ := read_eq_ok_iff.mp h
    obtain rfl := Except.ok.inj (hcs.symm.trans hcs')
    obtain ⟨keys', hkeys', -⟩ := keysOf_of_perm hperm hkeys
    exact ⟨keys', hkeys'⟩
  · rintro ⟨keys', h⟩
    obtain ⟨keys, hkeys, -⟩ := keysOf_of_perm hperm.symm h
    exact ⟨keys, read_eq_ok_iff.mpr ⟨cs, hcs, hkeys⟩⟩

theorem same_of_perm (hcs : certificates body = .ok cs) (hperm : cs.Perm cs')
    (h : read body = .ok keys) (h' : keysOf cs' = .ok keys') (expiresAt : Int64) :
    Same (KeySnapshot.ofKeys keys expiresAt) (KeySnapshot.ofKeys keys' expiresAt) := by
  obtain ⟨_, hcs', hkeys⟩ := read_eq_ok_iff.mp h
  obtain rfl := Except.ok.inj (hcs.symm.trans hcs')
  obtain ⟨keys'', hkeys'', hsame⟩ := keysOf_of_perm hperm hkeys
  obtain rfl := Except.ok.inj (h'.symm.trans hkeys'')
  exact same_ofKeys (nodup_kids_of_read h) hsame expiresAt

theorem fixed_eq_ok_iff {s : KeySnapshot} :
    fixed cs = .ok s ↔ ∃ keys, keysOf cs = .ok keys ∧ s = KeySnapshot.permanent keys := by
  rw [fixed]
  cases keysOf cs with
  | error e =>
    constructor
    · rintro ⟨⟩
    · rintro ⟨_, ⟨⟩, -⟩
  | ok keys =>
    constructor
    · rintro ⟨⟩
      exact ⟨keys, rfl, rfl⟩
    · rintro ⟨_, ⟨⟩, rfl⟩
      rfl

/-- What a document comes to. -/
structure WholeOrNothing (body : Bytes) : Prop where
  /-- It gives keys if it is an object of texts, and of those that count each gives a key under an
  ID that is not empty. -/
  reads_iff : (∃ keys, read body = .ok keys) ↔ ∃ ms, readRaw body = .ok (.object (texts ms)) ∧
    ∀ kid pem, lookup kid ms.reverse = some pem →
      kid ≠ "" ∧ ∃ k, TrustedKey.ofPem kid (Text.bytes pem) = .ok k
  /-- Each ID comes once. -/
  distinct : ∀ keys, read body = .ok keys → (keys.map (·.kid)).Nodup
  /-- The IDs are the names of the object. -/
  kids : ∀ keys ms, read body = .ok keys → readRaw body = .ok (.object (texts ms)) →
    ∀ kid, kid ∈ keys.map (·.kid) ↔ kid ∈ names ms
  /-- A snapshot of the keys holds under each ID what its own certificate gives, and no more. -/
  snapshot : ∀ keys ms, read body = .ok keys → readRaw body = .ok (.object (texts ms)) →
    ∀ expiresAt kid k, (KeySnapshot.ofKeys keys expiresAt).get? kid = some k ↔
      ∃ pem, lookup kid ms.reverse = some pem ∧ TrustedKey.ofPem kid (Text.bytes pem) = .ok k
  /-- All failures are of one code. -/
  code : ∀ e, read body = .error e → e.code = .certificateFetchFailed
  /-- The order in which the certificates are gone through does not matter. -/
  orderless : ∀ cs cs', certificates body = .ok cs → cs.Perm cs' →
    ((∃ keys, read body = .ok keys) ↔ ∃ keys', keysOf cs' = .ok keys') ∧
    (∀ e, keysOf cs' = .error e → e.code = .certificateFetchFailed) ∧
    ∀ keys keys' expiresAt, read body = .ok keys → keysOf cs' = .ok keys' →
      Same (KeySnapshot.ofKeys keys expiresAt) (KeySnapshot.ofKeys keys' expiresAt)
  /-- A fixed source of the same certificates, in any order, serves the same keys, or none. -/
  fixed : ∀ cs cs', certificates body = .ok cs → cs.Perm cs' →
    ((∃ s, fixed cs' = .ok s) ↔ ∃ keys, read body = .ok keys) ∧
    (∀ e, KeyDocument.fixed cs' = .error e → e.code = .certificateFetchFailed) ∧
    ∀ keys s, read body = .ok keys → KeyDocument.fixed cs' = .ok s →
      Same (KeySnapshot.permanent keys) s ∧
        ∀ kind outside w, ((KeySource.fixed s).keys kind).run outside w = (.ok s, w)

/-- **A document gives all of its keys or none**, whatever the order of its certificates. -/
theorem whole_or_nothing (body : Bytes) : WholeOrNothing body where
  reads_iff := exists_read_iff
  distinct _ := nodup_kids_of_read
  kids _ _ h hraw _ := mem_kids_iff h hraw
  snapshot _ _ h hraw _ _ _ := get?_of_read h hraw
  code _ := code_of_read
  orderless cs cs' hcs hperm :=
    ⟨exists_keysOf_of_perm hcs hperm, fun _ => code_of_keysOf,
      fun _ _ expiresAt h h' => same_of_perm hcs hperm h h' expiresAt⟩
  fixed cs cs' hcs hperm := by
    refine ⟨?_, fun e h => ?_, fun keys s h hs => ?_⟩
    · rw [exists_keysOf_of_perm hcs hperm]
      constructor
      · rintro ⟨s, hs⟩
        obtain ⟨keys, hkeys, -⟩ := fixed_eq_ok_iff.mp hs
        exact ⟨keys, hkeys⟩
      · rintro ⟨keys, hkeys⟩
        exact ⟨_, fixed_eq_ok_iff.mpr ⟨keys, hkeys, rfl⟩⟩
    · rw [KeyDocument.fixed] at h
      cases hkeys : keysOf cs' with
      | error e' =>
        rw [hkeys] at h
        cases h
        exact code_of_keysOf hkeys
      | ok keys =>
        rw [hkeys] at h
        cases h
    · obtain ⟨keys', hkeys', rfl⟩ := fixed_eq_ok_iff.mp hs
      exact ⟨same_of_perm hcs hperm h hkeys' _, fun _ _ _ => rfl⟩

end KeyDocument

end IdentityTokens
