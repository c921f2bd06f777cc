import IdentityTokens.Proofs.Keys.Fetches
import IdentityTokens.Proofs.Text.Blank
import IdentityTokens.Proofs.Text.Decimal

/-! # The age in a header

A header is directives between commas, and the first one that gives an age decides: what it gives
is a number of seconds, or there is no age at all. What stands behind it does not count, and no
more do letters in upper case and blanks around the name and the value. -/
namespace IdentityTokens

namespace MaxAge

open Text

/-- A directive of the form `name=value` whose name is the one that counts, in whatever case and
with whatever blanks around it. -/
def Gives (directive value : List Char) : Prop :=
  ∃ name rest, directive = name ++ '=' :: rest ∧ '=' ∉ name ∧
    (trimChars name).map Char.toLower = "max-age".toList ∧ trimChars rest = value

/-- A number of seconds in decimal. Leading zeros and a plus do not count. -/
inductive Seconds : List Char → Nat → Prop
  | unsigned {ds : List Char} (h : Digits ds) (hfits : Nat.ofDigitChars 10 ds 0 < UInt64.size) :
      Seconds ds (Nat.ofDigitChars 10 ds 0)
  | plus {ds : List Char} (h : Digits ds) (hfits : Nat.ofDigitChars 10 ds 0 < UInt64.size) :
      Seconds ('+' :: ds) (Nat.ofDigitChars 10 ds 0)

/-- Directives as they stand in a header. -/
def joined (ds : List (List Char)) : String := String.ofList ([','].intercalate ds)

/-- Pieces between commas. -/
structure Directives (ds : List (List Char)) : Prop where
  ne_nil : ds ≠ []
  comma : ∀ d ∈ ds, ',' ∉ d

variable {d value : List Char} {ds : List (List Char)} {header : String} {n : Nat}

/-! ## One directive -/

theorem assignment?_eq_some_iff {name : List Char} :
    assignment? d = some (name, value) ↔
      ∃ written rest, d = written ++ '=' :: rest ∧ '=' ∉ written ∧
        trimChars written = name ∧ trimChars rest = value := by
  have hwritten : '=' ∉ d.takeWhile (· ≠ '=') := fun h => by simpa using List.mem_takeWhile_imp h
  constructor
  · intro h
    rw [assignment?] at h
    split at h
    · cases h
    · rename_i c rest hrest
      cases h
      have hc : c = '=' := by
        have := List.head?_dropWhile_not (fun c => decide (c ≠ '=')) d
        rw [hrest] at this
        simpa using this
      refine ⟨_, rest, ?_, hwritten, rfl, rfl⟩
      rw [hc] at hrest
      rw [← hrest, List.takeWhile_append_dropWhile]
  · rintro ⟨written, rest, rfl, hno, rfl, rfl⟩
    have hall : ∀ c ∈ written, decide (c ≠ '=') = true := by
      intro c hc
      exact decide_eq_true fun heq => hno (heq ▸ hc)
    rw [assignment?, List.dropWhile_append_of_pos hall, List.takeWhile_append_of_pos hall]
    simp

theorem isMaxAge_iff {name : List Char} :
    isMaxAge name = true ↔ name.map Char.toLower = "max-age".toList := beq_iff_eq

theorem gives_iff : Gives d value ↔
    ∃ name, assignment? d = some (name, value) ∧ isMaxAge name = true := by
  constructor
  · rintro ⟨name, rest, hd, hno, hname, hrest⟩
    exact ⟨_, assignment?_eq_some_iff.mpr ⟨name, rest, hd, hno, rfl, hrest⟩, isMaxAge_iff.mpr hname⟩
  · rintro ⟨_, hd, hname⟩
    obtain ⟨name, rest, rfl, hno, rfl, hrest⟩ := assignment?_eq_some_iff.mp hd
    exact ⟨name, rest, rfl, hno, isMaxAge_iff.mp hname, hrest⟩

/-- A directive gives an age if it is one that the search stops at. -/
theorem any_assignment?_iff :
    (assignment? d).any (fun a => isMaxAge a.1) = true ↔ ∃ value, Gives d value := by
  simp only [gives_iff]
  rw [Option.any_eq_true]
  constructor
  · rintro ⟨⟨name, value⟩, h, hname⟩
    exact ⟨value, name, h, hname⟩
  · rintro ⟨value, name, h, hname⟩
    exact ⟨(name, value), h, hname⟩

/-! ## All directives -/

theorem directives_joined (h : Directives ds) : directives (joined ds) = ds := by
  rw [directives, joined, String.toList_ofList]
  exact cut_intercalate h.ne_nil h.comma

theorem directives_spec (header : String) :
    Directives (directives header) ∧ joined (directives header) = header := by
  refine ⟨⟨cut_ne_nil _ _, fun d hd => not_mem_of_mem_cut hd⟩, ?_⟩
  rw [joined, directives, intercalate_cut, String.ofList_toList]

theorem value?_eq (header : String) :
    value? header =
      (((directives header).find? fun d => (assignment? d).any fun a => isMaxAge a.1).bind
        assignment?).map fun a => String.ofList a.2 := by
  rw [value?, List.find?_filterMap]

/-- Nothing is found where no directive gives an age. -/
theorem value?_eq_none (h : ∀ d ∈ directives header, ∀ value, ¬ Gives d value) :
    value? header = none := by
  have hnone : ((directives header).find? fun d =>
      (assignment? d).any fun a => isMaxAge a.1) = none := by
    rw [List.find?_eq_none]
    intro d hd hany
    obtain ⟨value, hgives⟩ := any_assignment?_iff.mp hany
    exact h d hd value hgives
  rw [value?_eq, hnone]
  rfl

/-- The first directive that gives an age is found. -/
theorem value?_eq_some {before after : List (List Char)}
    (hsplit : directives header = before ++ d :: after)
    (hbefore : ∀ x ∈ before, ∀ value, ¬ Gives x value) (hd : Gives d value) :
    value? header = some (String.ofList value) := by
  have hfirst : ((directives header).find? fun d =>
      (assignment? d).any fun a => isMaxAge a.1) = some d := by
    rw [List.find?_eq_some_iff_append]
    refine ⟨any_assignment?_iff.mpr ⟨value, hd⟩, before, after, hsplit, fun x hx => ?_⟩
    rw [Bool.not_eq_true', Bool.eq_false_iff]
    intro hany
    obtain ⟨v, hgives⟩ := any_assignment?_iff.mp hany
    exact hbefore x hx v hgives
  obtain ⟨name, hassign, -⟩ := gives_iff.mp hd
  rw [value?_eq, hfirst, Option.bind_some, hassign]
  rfl

/-! ## Numbers of seconds -/

theorem maxSeconds_eq : maxSeconds = UInt64.size - 1 := by decide

theorem seconds_iff : Seconds value n ↔
    WritesInt value n ∧ (n : Int) ≤ maxSeconds ∧ value.head? ≠ some '-' := by
  rw [maxSeconds_eq]
  constructor
  · rintro (⟨h, hfits⟩ | ⟨h, hfits⟩)
    · refine ⟨.unsigned h, by omega, fun hhead => ?_⟩
      have hdigit := h.digit '-' (List.mem_of_mem_head? hhead)
      cases hdigit
    · exact ⟨.plus h, by omega, by simp⟩
  · rintro ⟨h, hfits, hminus⟩
    generalize hm : (n : Int) = m at h hfits
    cases h with
    | unsigned h =>
      obtain rfl := Int.ofNat.inj hm
      exact .unsigned h (by omega)
    | plus h =>
      obtain rfl := Int.ofNat.inj hm
      exact .plus h (by omega)
    | minus => exact absurd rfl hminus

theorem decimal?_eq_ok_iff_seconds :
    decimal? 0 maxSeconds (String.ofList value) = .ok n ↔ Seconds value n := by
  rw [decimal?_eq_ok_iff (Int.le_refl 0) (by decide), String.toList_ofList, seconds_iff]
  exact ⟨fun h => ⟨h.1, h.2.2.1, fun hhead => absurd (h.2.2.2 hhead) (Int.lt_irrefl 0)⟩,
    fun h => ⟨h.1, Int.natCast_nonneg n, h.2.1, fun hhead => absurd hhead h.2.2⟩⟩

/-- What comes of a value: the number of seconds that it is, or what is wrong with it. -/
structure Decides (value : List Char) (r : Except AuthError Nat) : Prop where
  ok : ∀ n, r = .ok n ↔ Seconds value n
  error : (∀ n, ¬ Seconds value n) → ∃ fault : DecimalFault, r = .error (certificateError
    ("invalid max-age value " ++ quoted (String.ofList value) ++ ": " ++ fault.message))

theorem ofHeader_of_value? (h : value? header = some (String.ofList value)) :
    Decides value (ofHeader (some header)) := by
  rw [ofHeader, Option.getD_some, h]
  dsimp only
  rcases hread : decimal? 0 maxSeconds (String.ofList value) with fault | m
  · refine ⟨fun n => ⟨fun h => ?_, fun hn => ?_⟩, fun _ => ⟨fault, rfl⟩⟩
    · cases h
    · cases hread.symm.trans (decimal?_eq_ok_iff_seconds.mpr hn)
  -- No negative number is read, so nothing is lost of it.
  · have hm : 0 ≤ m := ((decimal?_eq_ok_iff (Int.le_refl 0) (by decide)).mp hread).2.1
    have hseconds (n : Nat) : Seconds value n ↔ m.toNat = n := by
      rw [← decimal?_eq_ok_iff_seconds, hread, Except.ok.injEq]
      omega
    refine ⟨fun n => ?_, fun hno => absurd ((hseconds _).mpr rfl) (hno _)⟩
    rw [hseconds, Except.ok.injEq]

theorem ofHeader_of_none (h : value? header = none) :
    ofHeader (some header) =
      .error (certificateError "could not find expiry time from HTTP headers") := by
  rw [ofHeader, Option.getD_some, h]

/-! ## Blanks and letters that do not count -/

/-- A character of a name or a number: no blank, and no mark of a header. -/
def Solid (c : Char) : Prop := 0x20 < c.toNat ∧ c.toNat < 0x80 ∧ c ≠ ',' ∧ c ≠ '='

instance (c : Char) : Decidable (Solid c) := inferInstanceAs (Decidable (_ ∧ _ ∧ _ ∧ _))

theorem Solid.not_blank {c : Char} (h : Solid c) : isBlank c = false := isBlank_of_ascii h.1 h.2.1

/-- Digits and capitals, which are all that is met besides the letters of the name. -/
theorem solid_of_isDigit_or_isUpper {c : Char} (h : c.isDigit = true ∨ c.isUpper = true) :
    Solid c := by
  have hrange : 48 ≤ c.toNat ∧ c.toNat ≤ 57 ∨ 65 ≤ c.toNat ∧ c.toNat ≤ 90 := by
    rcases h with hdigit | hupper
    · exact .inl (by simpa [Char.isDigit, UInt32.le_iff_toNat_le] using hdigit)
    · have hbounds : 65 ≤ c.val ∧ c.val ≤ 90 := of_decide_eq_true hupper
      exact .inr ⟨UInt32.le_iff_toNat_le.mp hbounds.1, UInt32.le_iff_toNat_le.mp hbounds.2⟩
  refine ⟨by omega, by omega, ?_, ?_⟩
  all_goals
    rintro rfl
    revert hrange
    decide

theorem toLower_eq_self {c : Char} (h : c.isUpper = false) : c.toLower = c :=
  dif_neg (of_decide_eq_false h)

theorem solid_of_name {name : List Char} (h : name.map Char.toLower = "max-age".toList) :
    ∀ c ∈ name, Solid c := by
  intro c hc
  have hletter : c.toLower ∈ "max-age".toList := h ▸ List.mem_map_of_mem hc
  cases hupper : c.isUpper with
  | true => exact solid_of_isDigit_or_isUpper (.inr hupper)
  | false =>
    rw [toLower_eq_self hupper] at hletter
    have hall : "max-age".toList.all (Solid ·) = true := by decide
    exact of_decide_eq_true (List.all_eq_true.mp hall c hletter)

theorem Seconds.solid (h : Seconds value n) : ∀ c ∈ value, Solid c := by
  have hdigit {c : Char} (hc : c.isDigit = true) : Solid c :=
    solid_of_isDigit_or_isUpper (.inl hc)
  intro c hc
  cases h with
  | unsigned h => exact hdigit (h.digit c hc)
  | plus h =>
    rcases List.mem_cons.mp hc with rfl | hc
    · decide
    · exact hdigit (h.digit c hc)

/-- Nothing but blanks. -/
def Blanks (s : List Char) : Prop := ∀ c ∈ s, isBlank c = true

/-- A directive with blanks wherever they may stand. -/
def spaced (b₁ name b₂ b₃ value b₄ : List Char) : List Char :=
  (b₁ ++ name ++ b₂) ++ '=' :: (b₃ ++ value ++ b₄)

section Spaced

variable {b₁ name b₂ b₃ b₄ : List Char}

/-- Neither blanks nor what they stand around hold a mark of a header. -/
theorem not_mem_around {mark : Char} {before s after : List Char} (hmark : isBlank mark = false)
    (hbefore : Blanks before) (hs : mark ∉ s) (hafter : Blanks after) :
    mark ∉ before ++ s ++ after := by
  have hblank : ∀ {b : List Char}, Blanks b → mark ∉ b := by
    intro b hb hmem
    cases hmark.symm.trans (hb mark hmem)
  simp only [List.mem_append, not_or]
  exact ⟨⟨hblank hbefore, hs⟩, hblank hafter⟩

theorem gives_spaced (h₁ : Blanks b₁) (h₂ : Blanks b₂) (h₃ : Blanks b₃) (h₄ : Blanks b₄)
    (hname : name.map Char.toLower = "max-age".toList) (hvalue : Seconds value n) :
    Gives (spaced b₁ name b₂ b₃ value b₄) value := by
  have hsolid : ∀ c ∈ name, Solid c := solid_of_name hname
  refine ⟨b₁ ++ name ++ b₂, b₃ ++ value ++ b₄, rfl, ?_, ?_, ?_⟩
  · exact not_mem_around (by decide) h₁ (fun h => (hsolid '=' h).2.2.2 rfl) h₂
  · rw [trimChars_around h₁ (fun c hc => (hsolid c hc).not_blank) h₂]
    exact hname
  · exact trimChars_around h₃ (fun c hc => (hvalue.solid c hc).not_blank) h₄

theorem comma_of_spaced (h₁ : Blanks b₁) (h₂ : Blanks b₂) (h₃ : Blanks b₃) (h₄ : Blanks b₄)
    (hname : name.map Char.toLower = "max-age".toList) (hvalue : Seconds value n) :
    ',' ∉ spaced b₁ name b₂ b₃ value b₄ := by
  have hcomma {s : List Char} (hs : ∀ c ∈ s, Solid c) : ',' ∉ s := fun h => (hs ',' h).2.2.1 rfl
  rw [spaced, List.mem_append, List.mem_cons, not_or, not_or]
  exact ⟨not_mem_around (by decide) h₁ (hcomma (solid_of_name hname)) h₂, by decide,
    not_mem_around (by decide) h₃ (hcomma hvalue.solid) h₄⟩

end Spaced

/-! ## All headers -/

theorem decided {before after : List (List Char)} (h : Directives (before ++ d :: after))
    (hbefore : ∀ x ∈ before, ∀ v, ¬ Gives x v) (hd : Gives d value) :
    Decides value (ofHeader (some (joined (before ++ d :: after)))) :=
  ofHeader_of_value? (value?_eq_some (directives_joined h) hbefore hd)

/-- What holds of all headers. -/
structure FirstDecides : Prop where
  /-- Every header is directives between commas, and an absent one is as good as an empty one. -/
  covers : ∀ header : Option String, ∃ ds, Directives ds ∧
    ofHeader header = ofHeader (some (joined ds)) ∧ joined ds = header.getD ""
  /-- A number of seconds is read wherever it is given, if nothing before it gives an age. -/
  reads : ∀ before after name value b₁ b₂ b₃ b₄ n,
    (∀ d ∈ before, ',' ∉ d ∧ ∀ v, ¬ Gives d v) → (∀ d ∈ after, ',' ∉ d) →
    Blanks b₁ → Blanks b₂ → Blanks b₃ → Blanks b₄ →
    name.map Char.toLower = "max-age".toList → Seconds value n →
    ofHeader (some (joined (before ++ spaced b₁ name b₂ b₃ value b₄ :: after))) = .ok n
  /-- The first directive that gives an age decides, whatever stands behind it. -/
  first : ∀ before d after value, Directives (before ++ d :: after) →
    (∀ x ∈ before, ∀ v, ¬ Gives x v) → Gives d value →
    Decides value (ofHeader (some (joined (before ++ d :: after))))
  /-- Without such a directive there is no age. -/
  missing : ∀ ds, Directives ds → (∀ d ∈ ds, ∀ v, ¬ Gives d v) →
    ofHeader (some (joined ds)) =
      .error (certificateError "could not find expiry time from HTTP headers")
  coded : ∀ header e, ofHeader header = .error e → e.code = .certificateFetchFailed

/-- **The first directive that gives an age decides**, and nothing else in the header does. -/
theorem first_directive_decides : FirstDecides where
  covers header := by
    obtain ⟨hds, hjoined⟩ := directives_spec (header.getD "")
    refine ⟨_, hds, ?_, hjoined⟩
    rw [hjoined, ofHeader, ofHeader, Option.getD_some]
  reads before after name value b₁ b₂ b₃ b₄ n hbefore hafter h₁ h₂ h₃ h₄ hname hvalue := by
    have hd : Gives (spaced b₁ name b₂ b₃ value b₄) value :=
      gives_spaced h₁ h₂ h₃ h₄ hname hvalue
    refine ((decided ⟨by simp, ?_⟩ (fun x hx => (hbefore x hx).2) hd).1 n).mpr hvalue
    intro x hx
    rcases List.mem_append.mp hx with hx | hx
    · exact (hbefore x hx).1
    rcases List.mem_cons.mp hx with rfl | hx
    · exact comma_of_spaced h₁ h₂ h₃ h₄ hname hvalue
    · exact hafter x hx
  first before d after value h hbefore hd := decided h hbefore hd
  missing ds h hno := by
    refine ofHeader_of_none (value?_eq_none ?_)
    rwa [directives_joined h]
  coded header e h := by
    obtain ⟨message, rfl⟩ := PublishedKeys.certificateError_of_ofHeader h
    rfl

/-- The first age counts, in spite of the one behind it. -/
example : ofHeader (some "public,\tMAX-age = +007 , max-age=9") = .ok 7 := by decide +kernel

end MaxAge

end IdentityTokens
