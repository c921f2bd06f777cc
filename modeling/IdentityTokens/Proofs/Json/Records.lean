import IdentityTokens.Json.Form
import IdentityTokens.Proofs.Json.Skipping
import IdentityTokens.Proofs.Json.Values

/-! # Records, written and read

A record is read from an object one member after the other, each by the reader of its field.
Where no two members have one field, and no field is missed at the end, the record comes to the
updates of all members in their order; members without a field are passed over, whatever they
are. -/
namespace IdentityTokens.Json

open Reader

/-- A reader gives a value for what `w` is written in, whatever stands behind it. -/
def Reads {α : Type} (read : Bytes → Except Fault (Got α)) (w : Json) (a : α) : Prop :=
  ∀ rest, Stops rest → read (written w ++ rest) = .ok (a, rest)

/-! ## Readers of one type -/

theorem reads_text (s : String) : Reads Reader.text (.text s) s := by
  intro rest _
  have hquote : isBlank Quotation.quote = false := by decide
  rw [written_text, List.cons_append, List.append_assoc, List.singleton_append,
    Reader.text, skipBlanks_cons hquote]
  simp only [if_true, Quotation.read_inside]

theorem reads_integer {kind : IntegerKind} (n : Whole)
    (hn : kind.low ≤ n.value ∧ n.value ≤ kind.high) : Reads (integer kind) (.whole n) n.value := by
  intro rest hrest
  have hcheck : kind.check (.whole n, rest) = .ok (n.value, rest) := if_pos hn
  rcases written_whole n with ⟨hneg, hw⟩ | ⟨hpos, b, r, hw, hb⟩
  · have hread := Number.read_negative n hneg hrest
    have hminus : isBlank minus = false := by decide
    rw [hw, List.cons_append, integer, skipBlanks_cons hminus]
    simp only [if_true]
    rw [hread]
    exact hcheck
  · obtain ⟨hblank, -, -, hminus, -⟩ := of_isDigit hb
    have hread := Number.read_natural n hpos hrest
    change Number.read false (written (.whole n) ++ rest) = _ at hread
    rw [hw, List.cons_append] at hread ⊢
    rw [integer, skipBlanks_cons hblank]
    simp only [if_neg hminus, hb, if_true]
    rw [hread]
    exact hcheck

/-- A time is a whole number within the bounds of its kind. -/
theorem reads_time (t : Int64) : Reads time (.ofInt64 t) t := by
  intro rest hrest
  have hbounds : signed64.low ≤ t.toInt ∧ t.toInt ≤ signed64.high :=
    ⟨t.minValue_le_toInt, t.toInt_le⟩
  have hinteger : integer signed64 (written (.ofInt64 t) ++ rest) = .ok (t.toInt, rest) :=
    reads_integer _ hbounds rest hrest
  rw [time, hinteger]
  simp only [Except.map, Int64.ofInt_toInt]

/-- A value in place of which null might stand. -/
theorem reads_optional {α : Type} {read : Bytes → Except Fault (Got α)} {w : Json} {a : α}
    (h : Reads read w a) (hw : ∃ b r, written w = b :: r ∧ isBlank b = false ∧ b ≠ 'n'.toUInt8) :
    Reads (Reader.optional read) w (some a) := by
  intro rest hrest
  have hread := h rest hrest
  obtain ⟨b, r, hw, hblank, hb⟩ := hw
  rw [hw, List.cons_append] at hread ⊢
  rw [Reader.optional, skipBlanks_cons hblank]
  simp only [if_neg hb, hread]
  rfl

theorem reads_optional_text (s : String) : Reads (Reader.optional Reader.text) (.text s) (some s) :=
  reads_optional (reads_text s) ⟨_, _, written_text s, by decide, by decide⟩

theorem reads_map_of_value {room : Nat} {ms got : List (String × Json)}
    (h : Reads (value room) (.object ms) (.object got)) :
    Reads (map room value) (.object ms) got := by
  intro rest hrest
  obtain ⟨s, hs⟩ : ∃ s, written (.object ms) = openObject :: s := ⟨_, Utf8.encode_cons '\x7b' _⟩
  have hvalue := h rest hrest
  rw [hs, List.cons_append] at hvalue ⊢
  exact map_of_value hvalue

theorem reads_map {room : Nat} {ms : List (String × Json)} (h : (Json.object ms).Fits room) :
    Reads (map room value) (.object ms) ms :=
  reads_map_of_value fun _ hrest => h.value_written hrest

section Fields

variable {σ α : Type} {name : String} {presence : Presence} {w : Json} {a : α} {set : α → σ → σ}
  {room : Nat}

theorem reads_deepField {read : Nat → Bytes → Except Fault (Got α)} (h : Reads (read room) w a) :
    Reads ((deepField name presence read set).read room) w (set a) := by
  intro rest hrest
  change (read room (written w ++ rest)).map _ = _
  rw [h rest hrest]
  rfl

theorem reads_field {read : Bytes → Except Fault (Got α)} (h : Reads read w a) :
    Reads ((field name presence read set).read room) w (set a) :=
  reads_deepField (show Reads ((fun _ => read) room) w a from h)

end Fields

namespace Form

variable {σ : Type} {form : Form σ} {room : Nat} {seen : List String} {v result : σ}
  {ms : List (String × Json)} {rest t : Bytes}

/-- A field that was seen is not missed, whatever else is seen. -/
theorem missing?_cons (name : String) (h : form.missing? seen = none) :
    form.missing? (name :: seen) = none := by
  simp only [missing?, Option.map_eq_none_iff, List.find?_eq_none] at h ⊢
  intro f hf
  have hseen := h f hf
  simp only [Bool.and_eq_true, not_and, Bool.not_eq_true', Bool.not_eq_false] at hseen ⊢
  intro hnever
  rw [List.contains_cons, hseen hnever, Bool.or_true]

/-- What taking the members one after the other comes to, from a record so far and the names
that were seen. -/
inductive Takes (form : Form σ) (room : Nat) :
    List String → σ → List (String × Json) → σ → Prop where
  | done {seen : List String} {v : σ} (hmissing : form.missing? seen = none)
      (hcheck : form.check v = none) : Takes form room seen v [] v
  | field {seen : List String} {v result : σ} {f : Field σ} {update : σ → σ} {name : String}
      {w : Json} {ms : List (String × Json)} (hfield : form.field? name = some f)
      (hnew : seen.contains name = false) (hread : Reads (f.read room) w update)
      (hmore : Takes form room (name :: seen) (update v) ms result) :
      Takes form room seen v ((name, w) :: ms) result
  | skip {seen : List String} {v result : σ} {name : String} {w : Json}
      {ms : List (String × Json)} (hfield : form.field? name = none) (hopen : form.closed = none)
      (hmore : Takes form room seen v ms result) : Takes form room seen v ((name, w) :: ms) result

/-- One member, whichever way its name was found. -/
theorem members_step {fuel : Nat} {first : Bool} {s : Bytes} {f : Field σ} {update : σ → σ}
    {name : String} {w : Json} (hname : nextName first s = .ok (some name, colon :: (written w ++ t)))
    (hfield : form.field? name = some f) (hnew : seen.contains name = false)
    (hread : f.read room (written w ++ t) = .ok (update, t))
    (hmore : form.members room fuel false (name :: seen) (update v) t = .ok (result, rest)) :
    form.members room (fuel + 1) first seen v s = .ok (result, rest) := by
  rw [members, hname]
  simp only [bind, Except.bind, hfield, hnew, if_false, Bool.false_eq_true, colonThen_colon,
    hread, hmore]

theorem members_skip {fuel : Nat} {first : Bool} {s : Bytes} {name : String} {w : Json}
    (hname : nextName first s = .ok (some name, colon :: (written w ++ t)))
    (hfield : form.field? name = none) (hopen : form.closed = none) (ht : Stops t)
    (hmore : form.members room fuel false seen v t = .ok (result, rest)) :
    form.members room (fuel + 1) first seen v s = .ok (result, rest) := by
  rw [members, hname]
  simp only [bind, Except.bind, hfield, hopen, colonThen_colon, Skip.value_written w ht, hmore]

theorem members_close {fuel : Nat} {first : Bool} (hmissing : form.missing? seen = none)
    (hcheck : form.check v = none) :
    form.members room (fuel + 1) first seen v (closeObject :: rest) = .ok (v, rest) := by
  rw [members, nextName_close]
  simp only [bind, Except.bind, hmissing, hcheck]

theorem nextName_comma (m : String × Json) (ms : List (String × Json)) (t : Bytes) :
    nextName false (((m :: ms).flatMap fun n => comma :: member written n) ++ t) =
      .ok (some m.1, colon :: (written m.2 ++
        ((ms.flatMap fun n => comma :: member written n) ++ t))) := by
  rw [List.flatMap_cons, member, List.cons_append, List.cons_append, List.append_assoc,
    List.append_assoc, List.cons_append]
  exact nextName_more m.1

theorem Takes.members_flatMap {fuel : Nat} (h : form.Takes room seen v ms result)
    (hfuel : ms.length < fuel) :
    form.members room fuel false seen v ((ms.flatMap fun m => comma :: member written m) ++
      closeObject :: rest) = .ok (result, rest) := by
  induction h generalizing fuel with
  | done hmissing hcheck =>
    obtain ⟨fuel, rfl⟩ := Nat.exists_eq_add_of_lt hfuel
    exact members_close hmissing hcheck
  | @field seen v result f update name w ms hfield hnew hread hmore ih =>
    obtain ⟨fuel, rfl⟩ : ∃ n, fuel = n + 1 := ⟨fuel - 1, by omega⟩
    exact members_step (nextName_comma (name, w) ms _) hfield hnew
      (hread _ (stops_moreMembers _ _ _)) (ih (Nat.lt_of_succ_lt_succ hfuel))
  | @skip seen v result name w ms hfield hopen hmore ih =>
    obtain ⟨fuel, rfl⟩ : ∃ n, fuel = n + 1 := ⟨fuel - 1, by omega⟩
    exact members_skip (nextName_comma (name, w) ms _) hfield hopen (stops_moreMembers _ _ _)
      (ih (Nat.lt_of_succ_lt_succ hfuel))

/-- **A record is read from the object that its members are written in.** -/
theorem Takes.read_written (h : form.Takes room [] form.blank ms result) :
    form.read (room + 1) (written (.object ms) ++ rest) = .ok (result, rest) := by
  have hopen : isBlank openObject = false := by decide
  have hne : openObject ≠ openList := by decide
  cases ms with
  | nil =>
    obtain ⟨hmissing, hcheck⟩ := h
    have hw : written (.object []) = [openObject, closeObject] := rfl
    rw [hw, List.cons_append, read, skipBlanks_cons hopen]
    simp only [if_neg hne, if_true]
    exact members_close hmissing hcheck
  | cons m ms =>
    have hname : nextName true (member written m ++
        ((ms.flatMap fun n => comma :: member written n) ++ closeObject :: rest)) =
        .ok (some m.1, colon :: (written m.2 ++
          ((ms.flatMap fun n => comma :: member written n) ++ closeObject :: rest))) := by
      rw [member, List.append_assoc, List.cons_append]
      exact nextName_first m.1
    have hfuel : ms.length < (member written m ++
        ((ms.flatMap fun n => comma :: member written n) ++ closeObject :: rest)).length := by
      have hlength := length_le_flatMap ms (member written)
      simp only [List.length_append, List.length_cons]
      omega
    rw [written_object_cons, List.cons_append, read, skipBlanks_cons hopen]
    simp only [if_neg hne, if_true]
    rw [List.append_assoc, List.append_assoc, List.singleton_append]
    cases h with
    | field hfield hnew hread hmore =>
      exact members_step hname hfield hnew (hread _ (stops_moreMembers _ _ _))
        (hmore.members_flatMap hfuel)
    | skip hfield hopen hmore =>
      exact members_skip hname hfield hopen (stops_moreMembers _ _ _) (hmore.members_flatMap hfuel)

theorem Takes.decode_compact (h : form.Takes (maxDepth - 1) [] form.blank ms result) :
    form.decode (Text.bytes (Json.object ms).compact) = .ok result := by
  have hread : form.read maxDepth (written (.object ms) ++ []) = .ok (result, []) :=
    h.read_written
  rw [List.append_nil] at hread
  rw [decode, bytes_compact, document, hread]
  rfl

end Form

end IdentityTokens.Json
