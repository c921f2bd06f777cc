import IdentityTokens.Json.Reader
import IdentityTokens.Proofs.Json.Doubles
import IdentityTokens.Proofs.Json.Texts

/-! # Values, written and read

A value comes back from its text as long as it has no fractions in it and opens no more
containers within each other than a reader has room for. What stands behind it must not go on
a number, as a comma or a closing bracket does not. Readers of lists and of objects are told
apart from what they read: they give what their items' reader gives. -/
namespace IdentityTokens.Json

/-- A value that can be told from its text: whole numbers only, no name twice in an object, and
within `room` containers. -/
inductive Fits : Nat → Json → Prop where
  | null {room : Nat} : Fits room .null
  | bool {room : Nat} (b : Bool) : Fits room (.bool b)
  | whole {room : Nat} (n : Whole) : Fits room (.whole n)
  | text {room : Nat} (s : String) : Fits room (.text s)
  | array {room : Nat} {items : List Json} (hitems : ∀ v ∈ items, Fits room v) :
      Fits (room + 1) (.array items)
  | object {room : Nat} {members : List (String × Json)} (hnames : (names members).Nodup)
      (hmembers : ∀ m ∈ members, Fits room m.2) : Fits (room + 1) (.object members)

/-- What a value is written in. -/
def written (v : Json) : Bytes := Utf8.encode v.render

/-- A member of an object, with what its value is written in. -/
def member {α : Type} (write : α → Bytes) (m : String × α) : Bytes :=
  Utf8.encode (renderText m.1) ++ Reader.colon :: write m.2

/-! ## What is written -/

theorem written_text (s : String) :
    written (.text s) = Quotation.quote :: (Quotation.inside s.toList ++ [Quotation.quote]) := by
  rw [written, render, encode_renderText]

theorem renderItems_cons (v : Json) (rest : List Json) :
    renderItems (v :: rest) = render v ++ rest.flatMap fun w => ',' :: render w := by
  induction rest generalizing v with
  | nil => simp [renderItems]
  | cons w rest ih => simp [renderItems, ih]

theorem renderMembers_cons (m : String × Json) (rest : List (String × Json)) :
    renderMembers (m :: rest) = renderText m.1 ++ ':' :: render m.2 ++
      rest.flatMap fun n => ',' :: renderText n.1 ++ ':' :: render n.2 := by
  induction rest generalizing m with
  | nil => simp [renderMembers]
  | cons n rest ih => simp [renderMembers, ih]

theorem encode_flatMap {α : Type} (xs : List α) (f : α → List Char) :
    Utf8.encode (xs.flatMap f) = xs.flatMap fun x => Utf8.encode (f x) :=
  List.flatMap_assoc

theorem encode_comma (s : List Char) : Utf8.encode (',' :: s) = Reader.comma :: Utf8.encode s :=
  Utf8.encode_cons ',' s

theorem encode_colon (s : List Char) : Utf8.encode (':' :: s) = Reader.colon :: Utf8.encode s :=
  Utf8.encode_cons ':' s

theorem written_array_cons (v : Json) (rest : List Json) :
    written (.array (v :: rest)) = Reader.openList ::
      (written v ++ (rest.flatMap fun w => Reader.comma :: written w) ++ [Reader.closeList]) := by
  rw [written, render, renderItems_cons]
  simp only [List.cons_append, Utf8.encode_cons '[', Utf8.encode_append, encode_flatMap,
    encode_comma]
  rfl

theorem written_object_cons (m : String × Json) (rest : List (String × Json)) :
    written (.object (m :: rest)) = Reader.openObject ::
      (member written m ++ (rest.flatMap fun n => Reader.comma :: member written n) ++
        [Reader.closeObject]) := by
  rw [written, render, renderMembers_cons]
  simp only [List.cons_append, Utf8.encode_cons '\x7b', Utf8.encode_append, encode_flatMap,
    encode_comma, encode_colon]
  rfl

namespace Reader

/-! ## Between values -/

section Marks

variable {b : UInt8} {rest : Bytes}

theorem skipBlanks_cons (hb : isBlank b = false) : skipBlanks (b :: rest) = b :: rest := by
  simp [skipBlanks, hb]

theorem stops_comma : Stops (comma :: rest) := stops_cons (by decide) (by decide) (by decide)

theorem stops_closeList : Stops (closeList :: rest) :=
  stops_cons (by decide) (by decide) (by decide)

theorem stops_closeObject : Stops (closeObject :: rest) :=
  stops_cons (by decide) (by decide) (by decide)

end Marks

/-- There are no more values than bytes that they are written in. -/
theorem length_le_flatMap {α : Type} (xs : List α) (write : α → Bytes) :
    xs.length ≤ (xs.flatMap fun x => comma :: write x).length := by
  induction xs with
  | nil => exact Nat.le_refl 0
  | cons x xs ih =>
    simp only [List.flatMap_cons, List.length_cons, List.length_append]
    omega

/-! ## Lists -/

section Items

variable {α β : Type} {item : Bytes → Except Fault (Got β)} {write : α → Bytes} {get : α → β}
  {xs : List α} {rest : Bytes}

/-- Every one of some values is read as something from what it is written in. -/
def ReadsAs (item : Bytes → Except Fault (Got β)) (write : α → Bytes) (get : α → β)
    (xs : List α) : Prop :=
  ∀ x ∈ xs, ∀ rest, Stops rest → item (write x ++ rest) = .ok (get x, rest)

/-- What a value is written in starts with a byte that is no blank and does not end a list. -/
def Begins (s : Bytes) : Prop := ∃ b r, s = b :: r ∧ isBlank b = false ∧ b ≠ closeList

theorem stops_moreItems (xs : List α) (write : α → Bytes) (rest : Bytes) :
    Stops ((xs.flatMap fun x => comma :: write x) ++ closeList :: rest) := by
  cases xs with
  | nil => exact stops_closeList
  | cons x xs => exact stops_comma

theorem moreItems_flatMap {fuel : Nat} (rest : Bytes) (hreads : ReadsAs item write get xs)
    (hbegins : ∀ x ∈ xs, Begins (write x)) (hfuel : xs.length < fuel) :
    moreItems item fuel ((xs.flatMap fun x => comma :: write x) ++ closeList :: rest) =
      .ok (xs.map get, rest) := by
  induction xs generalizing fuel with
  | nil =>
    obtain ⟨fuel, rfl⟩ := Nat.exists_eq_add_of_lt hfuel
    rfl
  | cons x xs ih =>
    obtain ⟨fuel, rfl⟩ : ∃ n, fuel = n + 1 := ⟨fuel - 1, by omega⟩
    obtain ⟨b, r, hx, hblank, hclose⟩ := hbegins x List.mem_cons_self
    have hitem := hreads x List.mem_cons_self _
      (stops_moreItems xs write rest)
    have hmore := ih (fun y hy => hreads y (List.mem_cons_of_mem x hy))
      (fun y hy => hbegins y (List.mem_cons_of_mem x hy)) (Nat.lt_of_succ_lt_succ hfuel)
    have hcomma : isBlank comma = false := by decide
    have hne : comma ≠ closeList := by decide
    rw [hx, List.cons_append] at hitem
    rw [List.flatMap_cons, List.cons_append, List.cons_append, List.append_assoc, moreItems,
      skipBlanks_cons hcomma]
    simp only [if_neg hne, if_true, hx, List.cons_append, skipBlanks_cons hblank, if_neg hclose,
      hitem, hmore, bind, Except.bind, List.map_cons]

theorem items_cons {x : α} (hreads : ReadsAs item write get (x :: xs))
    (hbegins : ∀ y ∈ x :: xs, Begins (write y)) :
    items item (write x ++ (xs.flatMap fun y => comma :: write y) ++ closeList :: rest) =
      .ok ((x :: xs).map get, rest) := by
  obtain ⟨b, r, hx, hblank, hclose⟩ := hbegins x List.mem_cons_self
  have hitem := hreads x List.mem_cons_self _
    (stops_moreItems xs write rest)
  have hlength := length_le_flatMap xs write
  rw [List.append_assoc]
  rw [hx, List.cons_append] at hitem ⊢
  have hfuel : xs.length <
      (b :: (r ++ ((xs.flatMap fun y => comma :: write y) ++ closeList :: rest))).length := by
    simp only [List.length_cons, List.length_append]
    omega
  have hmore := moreItems_flatMap rest (fun y hy => hreads y (List.mem_cons_of_mem x hy))
    (fun y hy => hbegins y (List.mem_cons_of_mem x hy)) hfuel
  unfold items
  simp only [skipBlanks_cons hblank, if_neg hclose, hitem, hmore, bind, Except.bind, List.map_cons]

end Items

/-! ## Objects -/

section Members

variable {α β : Type} {item : Bytes → Except Fault (Got β)} {write : α → Bytes} {get : α → β}
  {ms : List (String × α)} {rest t : Bytes}

theorem nextName_close (first : Bool) : nextName first (closeObject :: rest) = .ok (none, rest) :=
  rfl

theorem nextName_first (name : String) :
    nextName true (Utf8.encode (renderText name) ++ t) = .ok (some name, t) := by
  have hquote : isBlank Quotation.quote = false := by decide
  have hne : Quotation.quote ≠ closeObject := by decide
  rw [encode_renderText, List.cons_append, List.append_assoc, List.singleton_append, nextName,
    skipBlanks_cons hquote]
  simp only [if_neg hne, if_true, Quotation.read_inside, bind, Except.bind]

theorem nextName_more (name : String) :
    nextName false (comma :: (Utf8.encode (renderText name) ++ t)) = .ok (some name, t) := by
  have hcomma : isBlank comma = false := by decide
  have hquote : isBlank Quotation.quote = false := by decide
  have hne : comma ≠ closeObject := by decide
  rw [encode_renderText, List.cons_append, List.append_assoc, List.singleton_append, nextName,
    skipBlanks_cons hcomma]
  simp only [if_neg hne, if_true, skipBlanks_cons hquote, Quotation.read_inside, bind,
    Except.bind, if_false, Bool.false_eq_true]

theorem colonThen_colon : colonThen (colon :: t) = .ok t := rfl

theorem stops_moreMembers (ms : List (String × α)) (write : α → Bytes) (rest : Bytes) :
    Stops ((ms.flatMap fun m => comma :: member write m) ++ closeObject :: rest) := by
  cases ms with
  | nil => exact stops_closeObject
  | cons m ms => exact stops_comma

/-- What a step over one member comes to, whichever way its name was found. -/
theorem members_step {fuel : Nat} {first : Bool} {s : Bytes} {m : String × α}
    {more : List (String × β)}
    (hname : nextName first s = .ok (some m.1, colon :: (write m.2 ++ t)))
    (hitem : item (write m.2 ++ t) = .ok (get m.2, t))
    (hmore : members item fuel false t = .ok (more, rest)) :
    members item (fuel + 1) first s = .ok ((m.1, get m.2) :: more, rest) := by
  rw [members, hname]
  simp only [bind, Except.bind, colonThen_colon, hitem, hmore]

theorem members_flatMap {fuel : Nat} (rest : Bytes)
    (hreads : ReadsAs item write get (ms.map (·.2))) (hfuel : ms.length < fuel) :
    members item fuel false ((ms.flatMap fun m => comma :: member write m) ++
      closeObject :: rest) = .ok (ms.map fun m => (m.1, get m.2), rest) := by
  induction ms generalizing fuel with
  | nil =>
    obtain ⟨fuel, rfl⟩ := Nat.exists_eq_add_of_lt hfuel
    rfl
  | cons m ms ih =>
    obtain ⟨fuel, rfl⟩ : ∃ n, fuel = n + 1 := ⟨fuel - 1, by omega⟩
    have hmore := ih (fun x hx => hreads x (List.mem_cons_of_mem m.2 hx))
      (Nat.lt_of_succ_lt_succ hfuel)
    have hitem := hreads m.2 List.mem_cons_self _
      (stops_moreMembers ms write rest)
    refine members_step ?_ hitem hmore
    rw [List.flatMap_cons, member, List.cons_append, List.cons_append, List.append_assoc,
      List.append_assoc, List.cons_append]
    exact nextName_more m.1

theorem members_cons {fuel : Nat} {m : String × α}
    (hreads : ReadsAs item write get ((m :: ms).map (·.2))) (hfuel : ms.length < fuel) :
    members item (fuel + 1) true (member write m ++
      (ms.flatMap fun n => comma :: member write n) ++ closeObject :: rest) =
      .ok ((m :: ms).map fun n => (n.1, get n.2), rest) := by
  have hmore := members_flatMap rest
    (fun x hx => hreads x (List.mem_cons_of_mem m.2 hx)) hfuel
  have hitem := hreads m.2 List.mem_cons_self _
    (stops_moreMembers ms write rest)
  refine members_step ?_ hitem hmore
  rw [List.append_assoc, member, List.append_assoc, List.cons_append]
  exact nextName_first m.1

end Members

/-! ## Values -/

section Value

variable {room : Nat} {b : UInt8} {r : Bytes}

/-- A digit starts no value but a number. -/
theorem of_isDigit (hb : isDigit b = true) :
    isBlank b = false ∧ literal? b = none ∧ b ≠ Quotation.quote ∧ b ≠ minus ∧ b ≠ closeList := by
  have hall : ∀ n < 256, isDigit (UInt8.ofNat n) = true →
      isBlank (UInt8.ofNat n) = false ∧ (literal? (UInt8.ofNat n)).isNone = true ∧
        UInt8.ofNat n ≠ Quotation.quote ∧ UInt8.ofNat n ≠ minus ∧ UInt8.ofNat n ≠ closeList := by
    decide +kernel
  have hdigit := hall b.toNat b.toNat_lt
  rw [UInt8.ofNat_toNat] at hdigit
  obtain ⟨hblank, hliteral, hquote, hminus, hclose⟩ := hdigit hb
  exact ⟨hblank, Option.isNone_iff_eq_none.mp hliteral, hquote, hminus, hclose⟩

theorem value_text : value room (Quotation.quote :: r) =
    (Quotation.read r).map fun (s, rest) => (.text s, rest) := by
  rw [value]
  rfl

theorem value_minus : value room (minus :: r) =
    (Number.read true r).map fun (n, rest) => (n.toJson, rest) := by
  rw [value]
  rfl

theorem value_digit (hb : isDigit b = true) : value room (b :: r) =
    (Number.read false (b :: r)).map fun (n, rest) => (n.toJson, rest) := by
  obtain ⟨hblank, hliteral, hquote, hminus, -⟩ := of_isDigit hb
  rw [value, skipBlanks_cons hblank]
  simp only [hliteral, if_neg hquote, if_neg hminus, hb, if_true]

theorem value_list : value (room + 1) (openList :: r) =
    (items (value room) r).map fun (xs, rest) => (.array xs, rest) := rfl

theorem value_object : value (room + 1) (openObject :: r) =
    (members (value room) (r.length + 1) true r).map fun (ms, rest) => (.object ms, rest) := rfl

end Value

end Reader

/-! ## Reading back -/

open Reader

/-- The first byte of a number, with its sign apart. -/
theorem written_whole (n : Whole) :
    (n.value < 0 ∧
      written (.whole n) = minus :: Utf8.encode (Nat.toDigits 10 n.value.natAbs)) ∨
    (0 ≤ n.value ∧ ∃ b r, written (.whole n) = b :: r ∧ isDigit b = true) := by
  rw [written, render, renderInt]
  by_cases hn : n.value < 0
  · refine .inl ⟨hn, ?_⟩
    rw [if_pos hn, Utf8.encode_cons]
    rfl
  · refine .inr ⟨by omega, ?_⟩
    rw [if_neg hn, encode_toDigits]
    obtain ⟨c, cs, hdigits⟩ := List.exists_cons_of_ne_nil (Nat.toDigits_ne_nil (n := n.value.natAbs)
      (b := 10))
    have hc : c.isDigit = true := isDigit_of_mem (hdigits ▸ List.mem_cons_self)
    rw [hdigits]
    exact ⟨c.toUInt8, cs.map Char.toUInt8, rfl, isDigit_toUInt8 hc⟩

theorem written_double (x : Double) :
    (x.negative = true ∧ written (.double x) = minus :: Utf8.encode x.decimal.text) ∨
    (x.negative = false ∧ written (.double x) = Utf8.encode x.decimal.text) := by
  rw [written, render, x.render_eq]
  cases x.negative
  · exact .inr ⟨rfl, rfl⟩
  · exact .inl ⟨rfl, Utf8.encode_cons '-' _⟩

theorem begins_of_isDigit {b : UInt8} {r : Bytes} (hb : isDigit b = true) : Begins (b :: r) := by
  obtain ⟨hblank, -, -, -, hclose⟩ := of_isDigit hb
  exact ⟨b, r, rfl, hblank, hclose⟩

theorem begins (v : Json) : Begins (written v) := by
  cases v with
  | null => exact ⟨'n'.toUInt8, _, rfl, by decide, by decide⟩
  | bool b => cases b <;> exact ⟨_, _, rfl, by decide, by decide⟩
  | whole n =>
    rcases written_whole n with ⟨-, hn⟩ | ⟨-, b, r, hn, hb⟩
    · exact ⟨_, _, hn, by decide, by decide⟩
    · rw [hn]
      exact begins_of_isDigit hb
  | double x =>
    rcases written_double x with ⟨-, hx⟩ | ⟨-, hx⟩
    · exact ⟨_, _, hx, by decide, by decide⟩
    · obtain ⟨b, r, hb, hdigit⟩ := x.valid_decimal.exists_digit
      rw [hx, hb]
      exact begins_of_isDigit hdigit
  | text s => exact ⟨_, _, written_text s, by decide, by decide⟩
  | array items => exact ⟨openList, _, Utf8.encode_cons '[' _, by decide, by decide⟩
  | object members => exact ⟨openObject, _, Utf8.encode_cons '\x7b' _, by decide, by decide⟩

theorem value_whole {room : Nat} {rest : Bytes} (n : Whole) (hrest : Stops rest) :
    value room (written (.whole n) ++ rest) = .ok (.whole n, rest) := by
  rcases written_whole n with ⟨hneg, hn⟩ | ⟨hpos, b, r, hn, hb⟩
  · rw [hn, List.cons_append, value_minus, Number.read_negative n hneg hrest]
    rfl
  · have hread := Number.read_natural n hpos hrest
    change Number.read false (written (.whole n) ++ rest) = _ at hread
    rw [hn, List.cons_append] at hread ⊢
    rw [value_digit hb, hread]
    rfl

/-- **A value is read from what it is written in.** By induction on the value: the items of a
list and the members of an object are read with room for one container less. -/
theorem Fits.value_written {room : Nat} {v : Json} (hv : v.Fits room) {rest : Bytes}
    (hrest : Stops rest) : value room (written v ++ rest) = .ok (v, rest) := by
  induction hv generalizing rest with
  | null =>
    rw [value]
    rfl
  | bool b =>
    rw [value]
    cases b <;> rfl
  | whole n => exact value_whole n hrest
  | text s =>
    rw [written_text, List.cons_append, List.append_assoc, value_text, List.singleton_append,
      Quotation.read_inside]
    rfl
  | @array room items hitems ih =>
    cases items with
    | nil => rfl
    | cons v items =>
      have hreads : ReadsAs (value room) written id (v :: items) := fun w hw _ => ih w hw
      rw [written_array_cons, List.cons_append, value_list, List.append_assoc,
        List.singleton_append, items_cons hreads fun w _ => begins w, List.map_id]
      rfl
  | @object room members hnames hmembers ih =>
    cases members with
    | nil => rfl
    | cons m members =>
      have hreads : ReadsAs (value room) written id ((m :: members).map (·.2)) := by
        intro w hw _
        obtain ⟨n, hn, rfl⟩ := List.mem_map.mp hw
        exact ih n hn
      rw [written_object_cons, List.cons_append, value_object, List.append_assoc,
        List.singleton_append, members_cons hreads ?_]
      · exact congrArg (fun ms => Except.ok (Json.object ms, rest)) (List.map_id _)
      · have hlength := length_le_flatMap members (member written)
        simp only [List.length_append, List.length_cons]
        omega

/-! ## Nothing to settle -/

section Settled

variable {α : Type}

theorem put_of_not_mem {name : String} {v : α} {ms : List (String × α)}
    (h : name ∉ names ms) : put name v ms = ms ++ [(name, v)] := by
  induction ms with
  | nil => rfl
  | cons m ms ih =>
    rw [names, List.map_cons, List.mem_cons, not_or] at h
    rw [put, if_neg (Ne.symm h.1), ih h.2]
    rfl

/-- By induction on the members that are still to be put behind those that stand already. -/
theorem foldl_put_of_nodup {done ms : List (String × α)} (h : (names (done ++ ms)).Nodup) :
    ms.foldl (fun done m => put m.1 m.2 done) done = done ++ ms := by
  induction ms generalizing done with
  | nil => rw [List.foldl_nil, List.append_nil]
  | cons m ms ih =>
    have hnew : m.1 ∉ names done := by
      intro hm
      rw [names, List.map_append, List.nodup_append] at h
      exact h.2.2 m.1 hm m.1 List.mem_cons_self rfl
    have hsplit : done ++ m :: ms = (done ++ [m]) ++ ms := by simp
    rw [hsplit] at h
    rw [List.foldl_cons, put_of_not_mem hnew, ih h, hsplit]

theorem settleMembers_of_nodup {ms : List (String × α)} (h : (names ms).Nodup) :
    settleMembers ms = ms :=
  foldl_put_of_nodup h

theorem settledItems_of {items : List Json} (h : ∀ v ∈ items, v.settled = v) :
    settledItems items = items := by
  induction items with
  | nil => rfl
  | cons v items ih =>
    rw [settledItems, h v List.mem_cons_self, ih fun w hw => h w (List.mem_cons_of_mem v hw)]

theorem settledMembers_of {ms : List (String × Json)} (h : ∀ m ∈ ms, m.2.settled = m.2) :
    settledMembers ms = ms := by
  induction ms with
  | nil => rfl
  | cons m ms ih =>
    rw [settledMembers, h m List.mem_cons_self, ih fun n hn => h n (List.mem_cons_of_mem m hn)]

/-- Where no name comes twice, each member has its last value at its first place. -/
theorem Fits.settled {room : Nat} {v : Json} (hv : v.Fits room) : v.settled = v := by
  induction hv with
  | null | bool | whole | text => rfl
  | array hitems ih => rw [Json.settled, settledItems_of ih]
  | object hnames hmembers ih =>
    rw [Json.settled, settledMembers_of ih, settleMembers_of_nodup hnames]

end Settled

/-! ## Whole documents -/

section Documents

variable {v : Json} {ms : List (String × Json)}

theorem bytes_compact (v : Json) : Text.bytes v.compact = written v := by
  rw [Text.bytes, compact, String.toList_ofList]
  rfl

/-- **A document comes back from its compact text**, and what it was read from has no member
more than it. -/
theorem readRaw_compact (hv : v.Fits maxDepth) : readRaw (Text.bytes v.compact) = .ok v := by
  have hvalue := hv.value_written stops_nil
  rw [List.append_nil] at hvalue
  rw [bytes_compact, readRaw, document, hvalue]
  rfl

/-- An object is read as one in the same way. -/
theorem map_of_value {room : Nat} {s rest : Bytes}
    (h : value room (openObject :: s) = .ok (.object ms, rest)) :
    map room value (openObject :: s) = .ok (ms, rest) := by
  cases room with
  | zero => cases h
  | succ room =>
    rw [value_object] at h
    change members (value room) (s.length + 1) true s = .ok (ms, rest)
    cases hms : members (value room) (s.length + 1) true s with
    | error f =>
      rw [hms] at h
      cases h
    | ok got =>
      rw [hms] at h
      cases h
      rfl

theorem readObject_compact (hms : (Json.object ms).Fits maxDepth) :
    readObject (Text.bytes (Json.object ms).compact) = .ok ms := by
  obtain ⟨s, hs⟩ : ∃ s, written (.object ms) = openObject :: s := ⟨_, Utf8.encode_cons '\x7b' _⟩
  have hvalue := hms.value_written stops_nil
  rw [List.append_nil, hs] at hvalue
  have hsettled : Json.object (settleMembers (settledMembers ms)) = .object ms := hms.settled
  rw [bytes_compact, readObject, document, hs, map_of_value hvalue]
  exact congrArg Except.ok (Json.object.inj hsettled)

end Documents

end IdentityTokens.Json
