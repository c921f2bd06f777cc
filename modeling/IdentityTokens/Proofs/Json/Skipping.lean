import IdentityTokens.Json.Skip
import IdentityTokens.Proofs.Json.Doubles
import IdentityTokens.Proofs.Json.Values

/-! # Values, passed over

Passing over a value ends exactly where the value that was written ends, whatever it is: how deep
it goes, which numbers are in it and how often a name comes in an object do not matter. So the
members of an object that nobody asks for hide nothing that stands behind them. -/
namespace IdentityTokens.Json

/-! ## Texts -/

namespace Quotation

variable {r t : Bytes}

theorem skip_cons {fuel : Nat} {b : UInt8} (hb : Plain b) :
    skip (fuel + 1) (b :: r) = skip fuel r := by
  rw [skip.eq_def]
  simp only [if_neg hb.ne_quote, if_neg hb.ne_backslash, if_neg hb.not_control]

theorem skip_u {fuel : Nat} :
    skip (fuel + 1) (backslash :: 'u'.toUInt8 :: r) =
      (do
        let (_, rest) ← hex4 r
        skip fuel rest) := rfl

theorem skip_plain {fuel : Nat} {bs : Bytes} (hbs : ∀ b ∈ bs, Plain b) :
    skip (fuel + bs.length) (bs ++ t) = skip fuel t := by
  induction bs with
  | nil => rfl
  | cons b bs ih =>
    rw [List.length_cons, ← Nat.add_assoc, List.cons_append, skip_cons (hbs b List.mem_cons_self)]
    exact ih fun d hd => hbs d (List.mem_cons_of_mem b hd)

/-- An escape is passed over in one step, and a byte that stands for itself in one step too. -/
theorem skip_escapeChar (c : Char) :
    ∃ steps ≤ (Utf8.encode (escapeChar c)).length, ∀ fuel t,
      skip (fuel + steps) (Utf8.encode (escapeChar c) ++ t) = skip fuel t := by
  unfold escapeChar
  split
  case h_8 hquote hbackslash _ _ _ _ _ =>
    split
    · rename_i hcontrol
      have hback : ∀ e, Utf8.encode ('\\' :: e) = backslash :: Utf8.encode e := Utf8.encode_cons '\\'
      rw [hback, encode_control hcontrol]
      refine ⟨1, Nat.succ_le_succ (Nat.zero_le _), fun fuel t => ?_⟩
      rw [List.cons_append, List.cons_append, skip_u, hex4_control hcontrol]
      rfl
    · rename_i hcontrol
      have hbytes : Utf8.encode [c] = String.utf8EncodeChar c := by
        rw [Utf8.encode_cons, Utf8.encode_nil, List.append_nil]
      rw [hbytes]
      refine ⟨_, Nat.le_refl _, fun fuel t => skip_plain ?_⟩
      exact plain_of_utf8EncodeChar hcontrol hquote hbackslash
  all_goals exact ⟨1, by decide, fun fuel t => rfl⟩

theorem skip_inside {fuel : Nat} (s : List Char) (hfuel : (inside s).length < fuel) :
    skip fuel (inside s ++ quote :: r) = .ok r := by
  induction s generalizing fuel with
  | nil =>
    obtain ⟨fuel, rfl⟩ := Nat.exists_eq_add_of_lt hfuel
    rfl
  | cons c s ih =>
    obtain ⟨steps, hsteps, hskip⟩ := skip_escapeChar c
    rw [inside_cons, List.length_append] at hfuel
    obtain ⟨fuel, rfl⟩ : ∃ n, fuel = n + steps := ⟨fuel - steps, by omega⟩
    rw [inside_cons, List.append_assoc, hskip]
    exact ih (by omega)

/-- **A text is passed over up to its closing quote.** -/
theorem skip_text (s : String) :
    skip ((inside s.toList ++ quote :: r).length + 1) (inside s.toList ++ quote :: r) = .ok r := by
  refine skip_inside s.toList ?_
  rw [List.length_append]
  omega

end Quotation

/-! ## Lists and objects -/

namespace Skip

open Reader

variable {α : Type} {item : Bytes → Except Fault Bytes} {write : α → Bytes} {rest : Bytes}

/-- Every one of some values is passed over where it is written. -/
def PassesOver (item : Bytes → Except Fault Bytes) (write : α → Bytes) (xs : List α) : Prop :=
  ∀ x ∈ xs, ∀ rest, Stops rest → item (write x ++ rest) = .ok rest

theorem moreItems_flatMap {fuel : Nat} {xs : List α} (hpasses : PassesOver item write xs)
    (hfuel : xs.length < fuel) :
    moreItems item fuel ((xs.flatMap fun x => comma :: write x) ++ closeList :: rest) =
      .ok rest := by
  induction xs generalizing fuel with
  | nil =>
    obtain ⟨fuel, rfl⟩ := Nat.exists_eq_add_of_lt hfuel
    rfl
  | cons x xs ih =>
    obtain ⟨fuel, rfl⟩ : ∃ n, fuel = n + 1 := ⟨fuel - 1, by omega⟩
    have hitem := hpasses x List.mem_cons_self _ (stops_moreItems xs write rest)
    have hmore := ih (fun y hy => hpasses y (List.mem_cons_of_mem x hy))
      (Nat.lt_of_succ_lt_succ hfuel)
    have hcomma : isBlank comma = false := by decide
    have hne : comma ≠ closeList := by decide
    rw [List.flatMap_cons, List.cons_append, List.cons_append, List.append_assoc, moreItems,
      skipBlanks_cons hcomma]
    simp only [if_neg hne, if_true, hitem, hmore, bind, Except.bind]

theorem items_cons {x : α} {xs : List α} (hpasses : PassesOver item write (x :: xs))
    (hbegins : Begins (write x)) :
    items item (write x ++ (xs.flatMap fun y => comma :: write y) ++ closeList :: rest) =
      .ok rest := by
  obtain ⟨b, r, hx, hblank, hclose⟩ := hbegins
  have hitem := hpasses x List.mem_cons_self _ (stops_moreItems xs write rest)
  have hlength := length_le_flatMap xs write
  rw [List.append_assoc]
  rw [hx, List.cons_append] at hitem ⊢
  have hfuel : xs.length <
      (b :: (r ++ ((xs.flatMap fun y => comma :: write y) ++ closeList :: rest))).length := by
    simp only [List.length_cons, List.length_append]
    omega
  have hmore : moreItems item _ _ = .ok rest :=
    moreItems_flatMap (fun y hy => hpasses y (List.mem_cons_of_mem x hy)) hfuel
  unfold items
  simp only [skipBlanks_cons hblank, if_neg hclose, hitem, hmore, bind, Except.bind]

theorem member_cons {m : String × α} {t : Bytes} (hitem : item (write m.2 ++ t) = .ok t) :
    member item (Json.member write m ++ t) = .ok t := by
  have hquote : isBlank Quotation.quote = false := by decide
  rw [Json.member, encode_renderText, List.append_assoc, List.cons_append, List.append_assoc,
    List.singleton_append, List.cons_append, member, skipBlanks_cons hquote]
  simp only [if_true, Quotation.skip_text, colonThen_colon, hitem, bind, Except.bind]

theorem moreMembers_flatMap {fuel : Nat} {ms : List (String × α)}
    (hpasses : PassesOver item write (ms.map (·.2))) (hfuel : ms.length < fuel) :
    moreMembers item fuel ((ms.flatMap fun m => comma :: Json.member write m) ++
      closeObject :: rest) = .ok rest := by
  induction ms generalizing fuel with
  | nil =>
    obtain ⟨fuel, rfl⟩ := Nat.exists_eq_add_of_lt hfuel
    rfl
  | cons m ms ih =>
    obtain ⟨fuel, rfl⟩ : ∃ n, fuel = n + 1 := ⟨fuel - 1, by omega⟩
    have hitem := hpasses m.2 List.mem_cons_self _ (stops_moreMembers ms write rest)
    have hmore := ih (fun x hx => hpasses x (List.mem_cons_of_mem m.2 hx))
      (Nat.lt_of_succ_lt_succ hfuel)
    have hcomma : isBlank comma = false := by decide
    have hne : comma ≠ closeObject := by decide
    rw [List.flatMap_cons, List.cons_append, List.cons_append, List.append_assoc, moreMembers,
      skipBlanks_cons hcomma]
    simp only [if_neg hne, if_true, member_cons hitem, hmore, bind, Except.bind]

theorem members_cons {m : String × α} {ms : List (String × α)}
    (hpasses : PassesOver item write ((m :: ms).map (·.2))) :
    members item (Json.member write m ++
      (ms.flatMap fun n => comma :: Json.member write n) ++ closeObject :: rest) = .ok rest := by
  obtain ⟨r, hm⟩ : ∃ r, Json.member write m = Quotation.quote :: r :=
    ⟨_, by rw [Json.member, encode_renderText, List.cons_append]⟩
  have hquote : isBlank Quotation.quote = false := by decide
  have hne : Quotation.quote ≠ closeObject := by decide
  have hitem := member_cons (hpasses m.2 List.mem_cons_self _ (stops_moreMembers ms write rest))
  have hlength := length_le_flatMap ms (Json.member write)
  rw [List.append_assoc]
  rw [hm, List.cons_append] at hitem ⊢
  have hfuel : ms.length < (Quotation.quote :: (r ++
      ((ms.flatMap fun n => comma :: Json.member write n) ++ closeObject :: rest))).length := by
    simp only [List.length_cons, List.length_append]
    omega
  have hmore : moreMembers item _ _ = .ok rest :=
    moreMembers_flatMap (fun x hx => hpasses x (List.mem_cons_of_mem m.2 hx)) hfuel
  unfold members
  simp only [skipBlanks_cons hquote, if_neg hne, hitem, hmore, bind, Except.bind]

/-! ## Values -/

section Value

variable {fuel : Nat} {b : UInt8} {r : Bytes}

theorem valueWithin_text :
    valueWithin (fuel + 1) (Quotation.quote :: r) = Quotation.skip (r.length + 1) r := by
  rw [valueWithin]
  rfl

theorem valueWithin_minus : valueWithin (fuel + 1) (minus :: r) = Number.skip r := by
  rw [valueWithin]
  rfl

theorem valueWithin_digit (hb : isDigit b = true) :
    valueWithin (fuel + 1) (b :: r) = Number.skip (b :: r) := by
  obtain ⟨hblank, hliteral, hquote, hminus, -⟩ := of_isDigit hb
  rw [valueWithin, skipBlanks_cons hblank]
  simp only [hliteral, if_neg hquote, if_neg hminus, hb, if_true]

theorem valueWithin_list :
    valueWithin (fuel + 1) (openList :: r) = items (valueWithin fuel) r := rfl

theorem valueWithin_object :
    valueWithin (fuel + 1) (openObject :: r) = members (valueWithin fuel) r := rfl

end Value

/-- Digits alone are a number of the grammar. -/
theorem skip_digits (n : Nat) (hrest : Stops rest) :
    Number.skip (Utf8.encode (Nat.toDigits 10 n) ++ rest) = .ok rest := by
  have hvalid : Decimal.Valid ⟨Nat.toDigits 10 n, [], none⟩ :=
    ⟨Number.leading_toDigits n, fun _ h => absurd h List.not_mem_nil,
      fun _ h => absurd h (Option.not_mem_none _)⟩
  have htext : Decimal.text ⟨Nat.toDigits 10 n, [], none⟩ = Nat.toDigits 10 n :=
    List.append_nil _
  rw [← htext]
  exact Number.skip_decimal hvalid hrest

theorem valueWithin_whole {fuel : Nat} (n : Whole) (hrest : Stops rest) :
    valueWithin (fuel + 1) (written (.whole n) ++ rest) = .ok rest := by
  rcases written_whole n with ⟨-, hn⟩ | ⟨hpos, b, r, hn, hb⟩
  · rw [hn, List.cons_append, valueWithin_minus]
    exact skip_digits _ hrest
  · have hskip := skip_digits n.value.natAbs hrest
    have hw : written (.whole n) = Utf8.encode (Nat.toDigits 10 n.value.natAbs) := by
      rw [written, render, renderInt, if_neg (by omega)]
    rw [← hw, hn, List.cons_append] at hskip
    rw [hn, List.cons_append, valueWithin_digit hb]
    exact hskip

theorem valueWithin_double {fuel : Nat} (x : Double) (hrest : Stops rest) :
    valueWithin (fuel + 1) (written (.double x) ++ rest) = .ok rest := by
  have hskip := x.skip_decimal hrest
  rcases written_double x with ⟨-, hx⟩ | ⟨-, hx⟩
  · rw [hx, List.cons_append, valueWithin_minus]
    exact hskip
  · obtain ⟨b, r, hb, hdigit⟩ := x.valid_decimal.exists_digit
    rw [hb, List.cons_append] at hskip
    rw [hx, hb, List.cons_append, valueWithin_digit hdigit]
    exact hskip

/-! What stands between brackets is shorter than the whole. -/

theorem length_lt_flatMap {xs : List α} {x : α} (hx : x ∈ xs) :
    (write x).length < (xs.flatMap fun y => comma :: write y).length := by
  induction xs with
  | nil => exact absurd hx List.not_mem_nil
  | cons y xs ih =>
    rw [List.flatMap_cons, List.length_append, List.length_cons]
    rcases List.mem_cons.mp hx with rfl | hx
    · omega
    · have hlt := ih hx
      omega

theorem length_lt_array {items : List Json} {v : Json} (hv : v ∈ items) :
    (written v).length < (written (.array items)).length := by
  obtain ⟨w, items, rfl⟩ := List.exists_cons_of_ne_nil (List.ne_nil_of_mem hv)
  rw [written_array_cons, List.length_cons, List.length_append, List.length_append]
  rcases List.mem_cons.mp hv with rfl | hv
  · omega
  · have hlt := @length_lt_flatMap _ written _ _ hv
    omega

theorem length_lt_object {members : List (String × Json)} {m : String × Json}
    (hm : m ∈ members) : (written m.2).length < (written (.object members)).length := by
  have hmember : ∀ n : String × Json, (written n.2).length < (Json.member written n).length := by
    intro n
    rw [Json.member, List.length_append, List.length_cons]
    omega
  obtain ⟨n, members, rfl⟩ := List.exists_cons_of_ne_nil (List.ne_nil_of_mem hm)
  rw [written_object_cons, List.length_cons, List.length_append, List.length_append]
  have hlt := hmember m
  rcases List.mem_cons.mp hm with rfl | hm
  · omega
  · have hmore := @length_lt_flatMap _ (Json.member written) _ _ hm
    omega

/-- Induction on the fuel: each container takes a byte of what its items are written in. -/
theorem valueWithin_written {fuel : Nat} (v : Json) (hfuel : (written v).length ≤ fuel)
    (hrest : Stops rest) : valueWithin fuel (written v ++ rest) = .ok rest := by
  induction fuel generalizing v rest with
  | zero =>
    obtain ⟨b, r, hv, -⟩ := begins v
    rw [hv] at hfuel
    exact absurd hfuel (Nat.not_succ_le_zero _)
  | succ fuel ih =>
    cases v with
    | null => rfl
    | bool b => cases b <;> rfl
    | whole n => exact valueWithin_whole n hrest
    | double x => exact valueWithin_double x hrest
    | text s =>
      rw [written_text, List.cons_append, List.append_assoc, valueWithin_text,
        List.singleton_append, Quotation.skip_text]
    | array items =>
      cases items with
      | nil => rfl
      | cons v items =>
        have hpasses : PassesOver (valueWithin fuel) written (v :: items) := fun w hw _ hstops =>
          ih w (Nat.le_of_lt_succ ((length_lt_array hw).trans_le hfuel)) hstops
        rw [written_array_cons, List.cons_append, valueWithin_list, List.append_assoc,
          List.singleton_append]
        exact items_cons hpasses (begins v)
    | object members =>
      cases members with
      | nil => rfl
      | cons m members =>
        have hpasses : PassesOver (valueWithin fuel) written ((m :: members).map (·.2)) := by
          intro w hw _ hstops
          obtain ⟨n, hn, rfl⟩ := List.mem_map.mp hw
          exact ih n.2 (Nat.le_of_lt_succ ((length_lt_object hn).trans_le hfuel)) hstops
        rw [written_object_cons, List.cons_append, valueWithin_object, List.append_assoc,
          List.singleton_append]
        exact members_cons hpasses

/-- **A value is passed over up to its end.** -/
theorem value_written (v : Json) (hrest : Stops rest) :
    value (written v ++ rest) = .ok rest := by
  refine valueWithin_written v ?_ hrest
  rw [List.length_append]
  omega

end Skip

end IdentityTokens.Json
