import IdentityTokens.Proofs.Call.Runs
import IdentityTokens.Proofs.Json.Skipping

/-! # How far a value goes

Any text that a value is read from is passed over up to the same place, so a reader that has no
use for a value goes on where the reader that wanted it does. Passing over is bounded by the
length of what is left. So every step here is shown to leave less, and that there is fuel enough
follows. -/
namespace IdentityTokens.Json

/-! ## Texts -/

namespace Quotation

variable {r r' rest : Bytes}

theorem length_of_hex4 {n : Nat} (h : hex4 r = .ok (n, rest)) : rest.length + 4 = r.length := by
  unfold hex4 at h
  split at h
  · split at h
    · cases h
      rfl
    · cases h
  · cases h

theorem of_escapeGoesOn {b : UInt8} (h : escapeGoesOn b r = .ok rest) : r = b :: rest := by
  unfold escapeGoesOn at h
  split at h
  · cases h
  · split at h
    · rename_i hb
      cases h
      rw [hb]
    · cases h

/-- A code point is passed over in one step, and two surrogates in two. -/
theorem skip_codePoint {c : Char} (h : codePoint r = .ok (c, rest)) :
    ∃ steps, 0 < steps ∧ steps + rest.length < r.length ∧
      ∀ fuel, skip (fuel + steps) (backslash :: 'u'.toUInt8 :: r) = skip fuel rest := by
  obtain ⟨⟨n, r₁⟩, hfirst, h⟩ := ok_of_bind h
  have hlength := length_of_hex4 hfirst
  have hstep : ∀ fuel, skip (fuel + 1) (backslash :: 'u'.toUInt8 :: r) = skip fuel r₁ := by
    intro fuel
    change (hex4 r >>= _) = _
    rw [hfirst]
    rfl
  dsimp only at h
  split at h
  · cases h
  split at h
  · obtain ⟨r₂, hback, h⟩ := ok_of_bind h
    obtain ⟨r₃, hmark, h⟩ := ok_of_bind h
    obtain ⟨⟨m, r₄⟩, hsecond, hlast⟩ := ok_of_bind h
    have hlength' := length_of_hex4 hsecond
    have hend : r₄ = rest := (Prod.mk.inj (Except.ok.inj (ok_of_guard hlast).2)).2
    clear h hlast
    obtain rfl := of_escapeGoesOn hback
    obtain rfl := of_escapeGoesOn hmark
    obtain rfl := hend
    refine ⟨2, by decide, by simp only [List.length_cons] at hlength; omega, fun fuel => ?_⟩
    refine (hstep (fuel + 1)).trans ?_
    change (hex4 r₃ >>= _) = _
    rw [hsecond]
    rfl
  · obtain rfl : r₁ = rest := (Prod.mk.inj (Except.ok.inj h)).2
    exact ⟨1, by decide, by omega, hstep⟩

theorem skip_escape {c : Char} (h : escape r = .ok (c, rest)) :
    ∃ steps, 0 < steps ∧ steps + rest.length ≤ r.length ∧
      ∀ fuel, skip (fuel + steps) (backslash :: r) = skip fuel rest := by
  unfold escape at h
  split at h
  · cases h
  rename_i b r₁
  split at h
  · rename_i d hshort
    obtain rfl : r₁ = rest := (Prod.mk.inj (Except.ok.inj h)).2
    refine ⟨1, by decide, by rw [List.length_cons]; omega, fun fuel => ?_⟩
    rw [skip]
    simp only [hshort, Option.isSome_some, if_true]
    rfl
  · obtain ⟨rfl, h⟩ := ok_of_guard h
    obtain ⟨steps, hsteps, hlength, hskip⟩ := skip_codePoint h
    exact ⟨steps, hsteps, by rw [List.length_cons]; omega, hskip⟩

/-- By induction on the fuel of the reader; an escape may take more steps to pass over than to
read, but no more than it has bytes. -/
theorem skip_of_content {fuel : Nat} {bytes : Bytes} (h : content fuel r = .ok (bytes, rest)) :
    rest.length < r.length ∧ ∀ fuel', r.length < fuel' → skip fuel' r = .ok rest := by
  induction fuel generalizing r bytes with
  | zero => cases h
  | succ fuel ih =>
    cases r with
    | nil => cases h
    | cons b r =>
      rw [content] at h
      split at h
      · rename_i hb
        cases h
        refine ⟨Nat.lt_succ_self _, fun fuel' hfuel => ?_⟩
        obtain ⟨fuel', rfl⟩ := Nat.exists_eq_add_of_lt hfuel
        rw [skip.eq_def]
        simp only [hb, if_true]
      rename_i hquote
      split at h
      · rename_i hb
        obtain rfl := hb
        obtain ⟨⟨c, r₁⟩, hescape, h⟩ := ok_of_bind h
        obtain ⟨⟨more, r₂⟩, hcontent, h⟩ := ok_of_bind h
        obtain rfl : r₂ = rest := (Prod.mk.inj (Except.ok.inj h)).2
        obtain ⟨hshorter, hskip⟩ := ih hcontent
        obtain ⟨steps, hsteps, hlength, hstep⟩ := skip_escape hescape
        rw [List.length_cons]
        refine ⟨by omega, fun fuel' hfuel => ?_⟩
        obtain ⟨fuel', rfl⟩ : ∃ n, fuel' = n + steps := ⟨fuel' - steps, by omega⟩
        rw [hstep]
        exact hskip fuel' (by omega)
      rename_i hback
      split at h
      · cases h
      rename_i hcontrol
      obtain ⟨⟨more, r₁⟩, hcontent, h⟩ := ok_of_bind h
      obtain rfl : r₁ = rest := (Prod.mk.inj (Except.ok.inj h)).2
      obtain ⟨hshorter, hskip⟩ := ih hcontent
      rw [List.length_cons]
      refine ⟨by omega, fun fuel' hfuel => ?_⟩
      obtain ⟨fuel', rfl⟩ : ∃ n, fuel' = n + 1 := ⟨fuel' - 1, by omega⟩
      rw [skip_cons ⟨hquote, hback, hcontrol⟩]
      exact hskip fuel' (by omega)

theorem skip_of_read {s : String} (h : read r = .ok (s, rest)) :
    rest.length < r.length ∧ ∀ fuel, r.length < fuel → skip fuel r = .ok rest := by
  obtain ⟨⟨bytes, r₁⟩, hcontent, h⟩ := ok_of_bind h
  dsimp only at h
  split at h
  · obtain rfl : r₁ = rest := (Prod.mk.inj (Except.ok.inj h)).2
    exact skip_of_content hcontent
  · cases h

end Quotation

/-! ## Numbers

Which digits a reader takes in and which it drops makes no difference to where they end. -/

namespace Number

variable {n : Number} {negative : Bool} {significand : Nat} {exponent : Int} {s rest : Bytes}

theorem dropWhile_of_not_goesOn (h : goesOn isDigit s = false) : s.dropWhile isDigit = s := by
  cases s with
  | nil => rfl
  | cons b s => exact List.dropWhile_cons_of_neg (Bool.eq_false_iff.mp h)

/-- What is left once some digits were taken in ends where all of the digits end. -/
theorem dropWhile_take {limit value count : Nat} :
    (take limit value count s).2.2.dropWhile isDigit = s.dropWhile isDigit := by
  induction s generalizing value count with
  | nil => rfl
  | cons b s ih =>
    rw [take]
    split
    · rfl
    · rename_i d hd
      split
      · have hb : isDigit b = true := by rw [isDigit, hd]; rfl
        rw [ih, List.dropWhile_cons_of_pos hb]
      · rfl

/-- Where no digit stands nothing is taken in. -/
theorem take_of_not_goesOn {limit value count : Nat} (h : goesOn isDigit s = false) :
    take limit value count s = (value, count, s) := by
  cases s with
  | nil => rfl
  | cons b s =>
    rw [take]
    split
    · rfl
    · rename_i d hd
      have hb : isDigit b = false := h
      rw [isDigit, hd] at hb
      cases hb

theorem rest_of_scaled (h : scaled negative significand exponent s = .ok (n, rest)) :
    s = rest := by
  unfold scaled at h
  split at h
  · exact (Prod.mk.inj (Except.ok.inj h)).2
  · cases h

theorem rest_of_plain (h : plain negative significand s = .ok (n, rest)) : s = rest := by
  unfold plain at h
  split at h
  · split at h
    · exact rest_of_scaled h
    · split at h
      · exact (Prod.mk.inj (Except.ok.inj h)).2
      · exact rest_of_scaled h
  · split at h
    · exact (Prod.mk.inj (Except.ok.inj h)).2
    · exact rest_of_scaled h

theorem skip_of_exponentPart (h : exponentPart negative significand exponent s = .ok (n, rest)) :
    skipExponent s = .ok rest := by
  unfold exponentPart at h
  unfold skipExponent
  dsimp only at h ⊢
  rcases hs : behindSign s with _ | ⟨b, r⟩
  all_goals
    rw [hs] at h
    dsimp only at h
  · cases h
  obtain ⟨hb, h⟩ := ok_of_guard h
  have hgoes : goesOn isDigit (b :: r) = true := hb
  have hrun := @dropWhile_take (b :: r) exponentLimit 0 0
  rw [if_pos hgoes, ← hrun]
  rcases htake : take exponentLimit 0 0 (b :: r) with ⟨e, count, r'⟩
  rw [htake] at h
  dsimp only at h ⊢
  split at h
  · split at h
    · cases h
    · cases h
      rfl
  · rename_i hstop
    rw [dropWhile_of_not_goesOn (Bool.eq_false_iff.mpr hstop), rest_of_scaled h]

theorem skip_of_afterDigits (h : afterDigits negative significand exponent s = .ok (n, rest)) :
    skipAfterDigits s = .ok rest := by
  unfold afterDigits at h
  unfold skipAfterDigits
  split at h
  · rename_i hmark
    rw [if_pos hmark]
    exact skip_of_exponentPart h
  · rename_i hmark
    rw [if_neg hmark, rest_of_scaled h]

theorem skip_of_fractionPart (h : fractionPart negative significand exponent s = .ok (n, rest)) :
    goesOn isDigit s = true ∧ skipAfterDigits (s.dropWhile isDigit) = .ok rest := by
  have hrun := @dropWhile_take s significandLimit significand 0
  unfold fractionPart at h
  rw [← hrun]
  cases hgoes : goesOn isDigit s with
  | false =>
    rw [take_of_not_goesOn hgoes] at h
    simp [hgoes] at h
  | true =>
    rcases htake : take significandLimit significand 0 s with ⟨m, count, r⟩
    rw [htake] at h
    dsimp only at h ⊢
    refine ⟨rfl, ?_⟩
    split at h
    · exact skip_of_afterDigits h
    · rename_i hstop
      obtain ⟨-, h⟩ := ok_of_refusal h
      rw [dropWhile_of_not_goesOn (Bool.eq_false_iff.mpr hstop)]
      exact skip_of_afterDigits h

/-- What may stand behind the digits before a point. -/
def skipTail (s : Bytes) : Except Fault Bytes :=
  if goesOn (· == '.'.toUInt8) s then
    if goesOn isDigit s.tail then skipAfterDigits (s.tail.dropWhile isDigit)
    else .error (ahead .invalidNumber s.tail)
  else skipAfterDigits s

theorem skipTail_of_fractionPart (hpoint : goesOn (· == '.'.toUInt8) s = true)
    (h : fractionPart negative significand exponent s.tail = .ok (n, rest)) :
    skipTail s = .ok rest := by
  obtain ⟨hgoes, hskip⟩ := skip_of_fractionPart h
  rw [skipTail, if_pos hpoint, if_pos hgoes, hskip]

theorem skipTail_of_afterInteger (h : afterInteger negative significand s = .ok (n, rest)) :
    skipTail s = .ok rest := by
  unfold afterInteger at h
  split at h
  · rename_i hpoint
    exact skipTail_of_fractionPart hpoint h
  rename_i hpoint
  rw [skipTail, if_neg hpoint, skipAfterDigits]
  split at h
  · rename_i hmark
    rw [if_pos hmark]
    exact skip_of_exponentPart h
  · rename_i hmark
    rw [if_neg hmark, rest_of_plain h]

theorem skip_digit {b : UInt8} (hb : isDigit b = true)
    (hzero : b = '0'.toUInt8 → goesOn isDigit s = false) :
    skip (b :: s) = skipTail (s.dropWhile isDigit) := by
  have hlead : ¬ (b == '0'.toUInt8 && goesOn isDigit s) = true := by
    rw [Bool.and_eq_true, beq_iff_eq]
    rintro ⟨hb, hgoes⟩
    exact Bool.noConfusion ((hzero hb).symm.trans hgoes)
  rw [skip, if_pos hb, if_neg hlead]
  rfl

theorem skip_of_read (h : read negative s = .ok (n, rest)) : skip s = .ok rest := by
  unfold read at h
  split at h
  · cases h
  rename_i b r
  split at h
  · cases h
  · rename_i hd
    have hb : isDigit b = true := by rw [isDigit, hd]; rfl
    obtain ⟨hstop, h⟩ := ok_of_refusal h
    have hend := Bool.eq_false_iff.mpr hstop
    rw [skip_digit hb fun _ => hend, dropWhile_of_not_goesOn hend]
    exact skipTail_of_afterInteger h
  · rename_i d hd
    have hb : isDigit b = true := by rw [isDigit, hd]; rfl
    have hzero : b = '0'.toUInt8 → goesOn isDigit r = false := by
      rintro rfl
      cases hd
    have hrun := @dropWhile_take r significandLimit (d + 1) 0
    rw [skip_digit hb hzero, ← hrun]
    rcases htake : take significandLimit (d + 1) 0 r with ⟨m, count, r'⟩
    rw [htake] at h
    dsimp only at h ⊢
    split at h
    · split at h
      · rename_i hpoint
        exact skipTail_of_fractionPart hpoint h
      · rename_i hpoint
        rw [skipTail, if_neg hpoint]
        exact skip_of_afterDigits h
    · rename_i hstop
      rw [dropWhile_of_not_goesOn (Bool.eq_false_iff.mpr hstop)]
      exact skipTail_of_afterInteger h

theorem length_of_skipExponent (h : skipExponent s = .ok rest) : rest.length ≤ s.length := by
  have hsign : (behindSign s).length ≤ s.length := by
    unfold behindSign
    split
    · exact List.length_tail ▸ Nat.sub_le _ _
    · exact Nat.le_refl _
  obtain ⟨-, h⟩ := ok_of_guard h
  cases h
  exact (List.dropWhile_sublist isDigit).length_le.trans hsign

theorem length_of_skipAfterDigits (h : skipAfterDigits s = .ok rest) :
    rest.length ≤ s.length := by
  unfold skipAfterDigits at h
  split at h
  · exact (length_of_skipExponent h).trans (List.length_tail ▸ Nat.sub_le _ _)
  · cases h
    exact Nat.le_refl _

theorem length_of_skipTail (h : skipTail s = .ok rest) : rest.length ≤ s.length := by
  unfold skipTail at h
  split at h
  · obtain ⟨-, h⟩ := ok_of_guard h
    exact (length_of_skipAfterDigits h).trans
      ((List.dropWhile_sublist isDigit).length_le.trans (List.length_tail ▸ Nat.sub_le _ _))
  · exact length_of_skipAfterDigits h

/-- A number takes a byte at least. -/
theorem length_of_skip (h : skip s = .ok rest) : rest.length < s.length := by
  cases s with
  | nil => cases h
  | cons b s =>
    obtain ⟨hb, -⟩ := ok_of_guard (show (if isDigit b then _ else _) = _ from h)
    have hzero : b = '0'.toUInt8 → goesOn isDigit s = false := by
      rintro rfl
      rw [skip, if_pos hb] at h
      obtain ⟨hlead, -⟩ := ok_of_refusal h
      exact Bool.eq_false_iff.mpr hlead
    rw [skip_digit hb hzero] at h
    exact Nat.lt_succ_of_le
      ((length_of_skipTail h).trans (List.dropWhile_sublist isDigit).length_le)

end Number

/-! ## Lists and objects -/

open Reader

variable {α : Type} {s rest : Bytes}

theorem length_skipBlanks_le (s : Bytes) : (skipBlanks s).length ≤ s.length :=
  (List.dropWhile_sublist isBlank).length_le

/-- What is left behind blanks starts with no blank. -/
theorem skipBlanks_of_eq_cons {b : UInt8} (h : skipBlanks s = b :: rest) :
    skipBlanks (b :: rest) = b :: rest ∧ rest.length < s.length := by
  have hlength := length_skipBlanks_le s
  rw [h] at hlength
  refine ⟨skipBlanks_cons ?_, hlength⟩
  have hhead := List.head?_dropWhile_not isBlank s
  rw [← skipBlanks, h] at hhead
  exact hhead

/-- Whatever of some length an item is read from is passed over up to the same place. -/
def PassedBy (item : Bytes → Except Fault (Got α)) (pass : Bytes → Except Fault Bytes)
    (length : Nat) : Prop :=
  ∀ s x rest, s.length ≤ length → item s = .ok (x, rest) →
    rest.length < s.length ∧ pass s = .ok rest

/-- Blanks before an item may be passed over with it. -/
def SparesBlanks (pass : Bytes → Except Fault Bytes) : Prop :=
  ∀ s rest, pass (skipBlanks s) = .ok rest → pass s = .ok rest

section Containers

variable {item : Bytes → Except Fault (Got α)} {pass : Bytes → Except Fault Bytes} {length : Nat}

theorem PassedBy.moreItems {fuel : Nat} {xs : List α} (h : PassedBy item pass length)
    (hblanks : SparesBlanks pass) (hlength : s.length ≤ length)
    (hread : Reader.moreItems item fuel s = .ok (xs, rest)) :
    rest.length < s.length ∧ Skip.moreItems pass fuel s = .ok rest := by
  induction fuel generalizing s xs with
  | zero => cases hread
  | succ fuel ih =>
    rw [Reader.moreItems] at hread
    split at hread
    · cases hread
    rename_i b r hs
    obtain ⟨-, hr⟩ := skipBlanks_of_eq_cons hs
    rw [Skip.moreItems, hs]
    dsimp only
    split at hread
    · rename_i hclose
      cases hread
      exact ⟨hr, if_pos hclose⟩
    rename_i hclose
    split at hread
    swap
    · cases hread
    rename_i hcomma
    split at hread
    · cases hread
    rename_i c r' hs'
    have hr' := length_skipBlanks_le r
    rw [hs'] at hr'
    split at hread
    · cases hread
    obtain ⟨⟨x, r₁⟩, hx, hread⟩ := ok_of_bind hread
    obtain ⟨⟨more, r₂⟩, hmore, hread⟩ := ok_of_bind hread
    obtain rfl : r₂ = rest := (Prod.mk.inj (Except.ok.inj hread)).2
    obtain ⟨hshorter, hpass⟩ := h _ _ _ (hr'.trans (by omega)) hx
    obtain ⟨hshorter', hpasses⟩ := ih (by omega) hmore
    rw [← hs'] at hpass
    rw [if_neg hclose, if_pos hcomma, hblanks _ _ hpass]
    exact ⟨by omega, hpasses⟩

theorem PassedBy.items {xs : List α} (h : PassedBy item pass length)
    (hblanks : SparesBlanks pass) (hlength : s.length ≤ length)
    (hread : Reader.items item s = .ok (xs, rest)) :
    rest.length < s.length ∧ Skip.items pass s = .ok rest := by
  rw [Reader.items] at hread
  split at hread
  · cases hread
  rename_i b r hs
  have hr := length_skipBlanks_le s
  rw [hs] at hr
  rw [Skip.items, hs]
  dsimp only
  split at hread
  · rename_i hclose
    cases hread
    exact ⟨hr, if_pos hclose⟩
  rename_i hclose
  obtain ⟨⟨x, r₁⟩, hx, hread⟩ := ok_of_bind hread
  obtain ⟨⟨more, r₂⟩, hmore, hread⟩ := ok_of_bind hread
  obtain rfl : r₂ = rest := (Prod.mk.inj (Except.ok.inj hread)).2
  obtain ⟨hshorter, hpass⟩ := h _ _ _ (hr.trans hlength) hx
  obtain ⟨hshorter', hpasses⟩ := h.moreItems hblanks (by omega) hmore
  rw [if_neg hclose, hpass]
  exact ⟨by omega, hpasses⟩

theorem of_colonThen (h : colonThen s = .ok rest) : rest.length < s.length := by
  unfold colonThen at h
  split at h
  · cases h
  rename_i b r hs
  obtain ⟨-, h⟩ := ok_of_guard h
  cases h
  have hr := length_skipBlanks_le s
  rwa [hs] at hr

theorem of_named {r : Bytes} {name? : Option String}
    (h : (Quotation.read r >>= fun got => Except.ok (some got.1, got.2)) = .ok (name?, rest)) :
    ∃ name, name? = some name ∧ Quotation.read r = .ok (name, rest) := by
  obtain ⟨got, hread, hlast⟩ := ok_of_bind h
  cases hlast
  exact ⟨got.1, rfl, hread⟩

/-- An object ends where its brace stands. -/
theorem of_nextName_none {first : Bool} (h : nextName first s = .ok (none, rest)) :
    skipBlanks s = closeObject :: rest := by
  unfold nextName at h
  split at h
  · cases h
  rename_i b r hs
  split at h
  · rename_i hclose
    cases h
    rw [hs, hclose]
  split at h
  · obtain ⟨_, hnone, -⟩ := of_named (ok_of_guard h).2
    cases hnone
  obtain ⟨-, h⟩ := ok_of_guard h
  split at h
  · cases h
  split at h
  · obtain ⟨_, hnone, -⟩ := of_named h
    cases hnone
  · split at h <;> cases h

/-- A further member stands behind a comma. -/
inductive NameAhead : Bool → Bytes → Bytes → Prop
  | first {s r : Bytes} (h : skipBlanks s = Quotation.quote :: r) : NameAhead true s r
  | more {s t r : Bytes} (h : skipBlanks s = comma :: t) (h' : skipBlanks t = Quotation.quote :: r) :
      NameAhead false s r

theorem of_nextName_some {first : Bool} {name : String}
    (h : nextName first s = .ok (some name, rest)) :
    ∃ r, NameAhead first s r ∧ Quotation.read r = .ok (name, rest) := by
  unfold nextName at h
  split at h
  · cases h
  rename_i b r hs
  split at h
  · cases h
  cases first with
  | true =>
    rw [if_pos rfl] at h
    obtain ⟨hquote, h⟩ := ok_of_guard h
    obtain ⟨_, ⟨⟩, hread⟩ := of_named h
    rw [hquote] at hs
    exact ⟨r, .first hs, hread⟩
  | false =>
    rw [if_neg Bool.false_ne_true] at h
    obtain ⟨hcomma, h⟩ := ok_of_guard h
    rw [hcomma] at hs
    split at h
    · cases h
    rename_i c r' hs'
    split at h
    · rename_i hquote
      obtain ⟨_, ⟨⟩, hread⟩ := of_named h
      rw [hquote] at hs'
      exact ⟨r', .more hs hs', hread⟩
    · split at h <;> cases h

theorem PassedBy.member {r t u : Bytes} {name : String} {x : α} (h : PassedBy item pass length)
    (hlength : s.length ≤ length) (hs : skipBlanks s = Quotation.quote :: r)
    (hname : Quotation.read r = .ok (name, t)) (hcolon : colonThen t = .ok u)
    (hitem : item u = .ok (x, rest)) :
    rest.length < s.length ∧ Skip.member pass s = .ok rest := by
  have hr := length_skipBlanks_le s
  rw [hs, List.length_cons] at hr
  obtain ⟨ht, hskip⟩ := Quotation.skip_of_read hname
  have hu := of_colonThen hcolon
  obtain ⟨hshorter, hpass⟩ := h _ _ _ (by omega) hitem
  refine ⟨by omega, ?_⟩
  rw [Skip.member, hs]
  simp only [if_true, hskip _ (Nat.lt_succ_self _), hcolon, hpass, bind, Except.bind]

theorem PassedBy.moreMembers {fuel : Nat} {ms : List (String × α)}
    (h : PassedBy item pass length) (hlength : s.length ≤ length)
    (hread : Reader.members item fuel false s = .ok (ms, rest)) :
    rest.length < s.length ∧ Skip.moreMembers pass fuel s = .ok rest := by
  induction fuel generalizing s ms with
  | zero => cases hread
  | succ fuel ih =>
    obtain ⟨⟨name, r⟩, hname, hread⟩ := ok_of_bind hread
    have hs := length_skipBlanks_le s
    rw [Skip.moreMembers]
    cases name with
    | none =>
      cases hread
      rw [of_nextName_none hname] at hs ⊢
      exact ⟨hs, if_pos rfl⟩
    | some name =>
      obtain ⟨u, hcolon, hread⟩ := ok_of_bind hread
      obtain ⟨⟨x, r₁⟩, hitem, hread⟩ := ok_of_bind hread
      obtain ⟨⟨more, r₂⟩, hmore, hread⟩ := ok_of_bind hread
      obtain rfl : r₂ = rest := (Prod.mk.inj (Except.ok.inj hread)).2
      obtain ⟨r', hahead, hquotation⟩ := of_nextName_some hname
      cases hahead with
      | @more _ t _ hcomma hquote =>
        rw [hcomma, List.length_cons] at hs
        obtain ⟨hshorter, hmember⟩ := h.member (by omega) hquote hquotation hcolon hitem
        obtain ⟨hshorter', hmembers⟩ := ih (by omega) hmore
        have hne : comma ≠ closeObject := by decide
        rw [hcomma]
        simp only [if_neg hne, if_true, hmember, hmembers, bind, Except.bind, and_true]
        omega

theorem PassedBy.members {ms : List (String × α)} (h : PassedBy item pass length)
    (hlength : s.length ≤ length)
    (hread : Reader.members item (s.length + 1) true s = .ok (ms, rest)) :
    rest.length < s.length ∧ Skip.members pass s = .ok rest := by
  obtain ⟨⟨name, r⟩, hname, hread⟩ := ok_of_bind hread
  have hs := length_skipBlanks_le s
  rw [Skip.members]
  cases name with
  | none =>
    cases hread
    rw [of_nextName_none hname] at hs ⊢
    exact ⟨hs, if_pos rfl⟩
  | some name =>
    obtain ⟨u, hcolon, hread⟩ := ok_of_bind hread
    obtain ⟨⟨x, r₁⟩, hitem, hread⟩ := ok_of_bind hread
    obtain ⟨⟨more, r₂⟩, hmore, hread⟩ := ok_of_bind hread
    obtain rfl : r₂ = rest := (Prod.mk.inj (Except.ok.inj hread)).2
    obtain ⟨r', hahead, hquotation⟩ := of_nextName_some hname
    cases hahead with
    | first hquote =>
      rw [hquote] at hs
      obtain ⟨hstripped, -⟩ := skipBlanks_of_eq_cons hquote
      obtain ⟨hshorter, hmember⟩ :=
        h.member (hs.trans hlength) hstripped hquotation hcolon hitem
      obtain ⟨hshorter', hmembers⟩ := h.moreMembers (by omega) hmore
      have hne : Quotation.quote ≠ closeObject := by decide
      rw [hquote]
      simp only [if_neg hne, hmember, hmembers, bind, Except.bind, and_true]
      omega

end Containers

/-! ## Values -/

theorem sparesBlanks_valueWithin (fuel : Nat) : SparesBlanks (Skip.valueWithin fuel) := by
  intro s rest h
  cases fuel with
  | zero => cases h
  | succ fuel =>
    rcases hs : skipBlanks s with _ | ⟨b, r⟩
    · rw [hs] at h
      cases h
    · rw [hs, Skip.valueWithin, (skipBlanks_of_eq_cons hs).1] at h
      rw [Skip.valueWithin, hs]
      exact h

theorem of_letters {cs : List Char} (h : letters cs s = .ok rest) : rest.length ≤ s.length := by
  induction cs generalizing s with
  | nil =>
    cases h
    exact Nat.le_refl _
  | cons c cs ih =>
    cases s with
    | nil => cases h
    | cons b s =>
      obtain ⟨-, h⟩ := ok_of_guard (show (if b = c.toUInt8 then _ else _) = _ from h)
      exact Nat.le_succ_of_le (ih h)

/-- What a value is read from, told by its first byte. -/
inductive ValueAt : Nat → Bytes → Json → Bytes → Prop
  | literal {room : Nat} {s r rest : Bytes} {b : UInt8} {cs : List Char} {v : Json}
      (hs : skipBlanks s = b :: r) (hb : literal? b = some (cs, v))
      (hread : letters cs r = .ok rest) : ValueAt room s v rest
  | text {room : Nat} {s r rest : Bytes} {t : String}
      (hs : skipBlanks s = Quotation.quote :: r) (hread : Quotation.read r = .ok (t, rest)) :
      ValueAt room s (.text t) rest
  | negative {room : Nat} {s r rest : Bytes} {n : Number} (hs : skipBlanks s = minus :: r)
      (hread : Number.read true r = .ok (n, rest)) : ValueAt room s n.toJson rest
  | natural {room : Nat} {s r rest : Bytes} {b : UInt8} {n : Number}
      (hs : skipBlanks s = b :: r) (hb : isDigit b = true)
      (hread : Number.read false (b :: r) = .ok (n, rest)) : ValueAt room s n.toJson rest
  | array {room : Nat} {s r rest : Bytes} {xs : List Json}
      (hs : skipBlanks s = openList :: r) (hread : items (value room) r = .ok (xs, rest)) :
      ValueAt (room + 1) s (.array xs) rest
  | object {room : Nat} {s r rest : Bytes} {ms : List (String × Json)}
      (hs : skipBlanks s = openObject :: r)
      (hread : members (value room) (r.length + 1) true r = .ok (ms, rest)) :
      ValueAt (room + 1) s (.object ms) rest

theorem valueAt_of_value {room : Nat} {v : Json} (h : value room s = .ok (v, rest)) :
    ValueAt room s v rest := by
  rw [value] at h
  split at h
  · cases h
  rename_i b r hs
  split at h
  · rename_i cs w hb
    obtain ⟨r', hread, h⟩ := ok_of_map h
    cases h
    exact .literal hs hb hread
  split at h
  · rename_i hquote
    obtain ⟨⟨t, r'⟩, hread, h⟩ := ok_of_map h
    cases h
    exact .text (hquote ▸ hs) hread
  split at h
  · rename_i hminus
    obtain ⟨⟨n, r'⟩, hread, h⟩ := ok_of_map h
    cases h
    exact .negative (hminus ▸ hs) hread
  split at h
  · rename_i hb
    obtain ⟨⟨n, r'⟩, hread, h⟩ := ok_of_map h
    cases h
    exact .natural hs hb hread
  split at h
  · rename_i hopen
    cases room with
    | zero => cases h
    | succ room =>
      obtain ⟨⟨xs, r'⟩, hread, h⟩ := ok_of_map h
      cases h
      exact .array (hopen ▸ hs) hread
  split at h
  · rename_i hopen
    cases room with
    | zero => cases h
    | succ room =>
      obtain ⟨⟨ms, r'⟩, hread, h⟩ := ok_of_map h
      cases h
      exact .object (hopen ▸ hs) hread
  · cases h

/-- By induction on how many containers may be opened: what is in one is shorter than all of it. -/
theorem passedBy_value (room length fuel : Nat) (hfuel : length < fuel) :
    PassedBy (value room) (Skip.valueWithin fuel) length := by
  induction room using Nat.strongRecOn generalizing length fuel with
  | ind room ih =>
  intro s v rest hlength h
  obtain ⟨fuel, rfl⟩ : ∃ n, fuel = n + 1 := ⟨fuel - 1, by omega⟩
  have hs := length_skipBlanks_le s
  suffices hpass : rest.length < (skipBlanks s).length ∧
      Skip.valueWithin (fuel + 1) (skipBlanks s) = .ok rest from
    ⟨hpass.1.trans_le hs, sparesBlanks_valueWithin _ s rest hpass.2⟩
  cases valueAt_of_value h with
  | literal hb hliteral hread =>
    rw [hb, Skip.valueWithin, (skipBlanks_of_eq_cons hb).1]
    dsimp only
    rw [hliteral]
    exact ⟨Nat.lt_succ_of_le (of_letters hread), hread⟩
  | text hb hread =>
    obtain ⟨hshorter, hskip⟩ := Quotation.skip_of_read hread
    rw [hb, Skip.valueWithin_text]
    exact ⟨hshorter.trans (Nat.lt_succ_self _), hskip _ (Nat.lt_succ_self _)⟩
  | negative hb hread =>
    have hskip := Number.skip_of_read hread
    rw [hb, Skip.valueWithin_minus]
    exact ⟨(Number.length_of_skip hskip).trans (Nat.lt_succ_self _), hskip⟩
  | natural hb hdigit hread =>
    have hskip := Number.skip_of_read hread
    rw [hb, Skip.valueWithin_digit hdigit]
    exact ⟨Number.length_of_skip hskip, hskip⟩
  | @array room _ r _ _ hb hread =>
    rw [hb] at hs ⊢
    have hr : r.length < fuel := by
      rw [List.length_cons] at hs
      omega
    obtain ⟨hshorter, hitems⟩ := (ih room (Nat.lt_succ_self _) _ _ hr).items
      (sparesBlanks_valueWithin fuel) (Nat.le_refl _) hread
    exact ⟨hshorter.trans (Nat.lt_succ_self _), hitems⟩
  | @object room _ r _ _ hb hread =>
    rw [hb] at hs ⊢
    have hr : r.length < fuel := by
      rw [List.length_cons] at hs
      omega
    obtain ⟨hshorter, hmembers⟩ :=
      (ih room (Nat.lt_succ_self _) _ _ hr).members (Nat.le_refl _) hread
    exact ⟨hshorter.trans (Nat.lt_succ_self _), hmembers⟩

/-- **Passing over a value ends where reading it does.** -/
theorem skip_of_value {room : Nat} {v : Json} (h : value room s = .ok (v, rest)) :
    Skip.value s = .ok rest :=
  (passedBy_value room s.length (s.length + 1) (Nat.lt_succ_self _) s v rest (Nat.le_refl _) h).2

end IdentityTokens.Json
