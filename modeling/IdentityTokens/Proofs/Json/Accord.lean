import IdentityTokens.Json.Form
import IdentityTokens.Proofs.Json.Extents
import IdentityTokens.Proofs.Json.Settling

/-! # One text, read twice

A text can be read as a record and as a plain value. Where both succeed they stop at the same
place, and what the record was given for a field is what the value has in its place: in an object
the one member of the field's name, in a list the item in the field's position. -/
namespace IdentityTokens.Json

open Reader

/-- Where both can read a text, a reader stops where the reader of values does, and the value means
what it gave. -/
def Accords {α : Type} (read : Nat → Bytes → Except Fault (Got α)) (means : Json → α → Prop) :
    Prop :=
  ∀ room s a rest v rest', read room s = .ok (a, rest) → value room s = .ok (v, rest') →
    rest' = rest ∧ means v a

theorem Accords.mono {α : Type} {P Q : Json → α → Prop}
    {read : Nat → Bytes → Except Fault (Got α)} (h : Accords read P)
    (hPQ : ∀ w a, P w a → Q w a) : Accords read Q := by
  intro room s a rest v rest' hread hvalue
  obtain ⟨hrest, hP⟩ := h room s a rest v rest' hread hvalue
  exact ⟨hrest, hPQ v a hP⟩

/-! ## Readers of one type -/

theorem value_of_blanks {room : Nat} {s r : Bytes} {b : UInt8} (hs : skipBlanks s = b :: r) :
    value room s = value room (b :: r) := by
  rw [value, value, hs, (skipBlanks_of_eq_cons hs).1]

theorem value_literal {room : Nat} {s r : Bytes} {b : UInt8} {cs : List Char} {v : Json}
    (hs : skipBlanks s = b :: r) (hb : literal? b = some (cs, v)) :
    value room s = (letters cs r).map fun rest => (v, rest) := by
  rw [value, hs]
  dsimp only
  rw [hb]

/-- A text is a value. -/
theorem value_of_text {room : Nat} {s rest : Bytes} {t : String}
    (h : Reader.text s = .ok (t, rest)) : value room s = .ok (.text t, rest) := by
  unfold Reader.text at h
  split at h
  · cases h
  rename_i b r hs
  obtain ⟨rfl, hread⟩ := ok_of_guard h
  rw [value_of_blanks hs, value_text, hread]
  rfl

theorem accords_text : Accords (fun _ => Reader.text) fun v s => v = .text s := by
  intro room s a rest v rest' hread hvalue
  cases (value_of_text hread).symm.trans hvalue
  exact ⟨rfl, rfl⟩

theorem of_check {kind : IntegerKind} {got : Except Fault (Got Number)} {i : Int} {rest : Bytes}
    (h : got.bind kind.check = .ok (i, rest)) :
    ∃ n : Whole, got = .ok (.whole n, rest) ∧ n.value = i ∧ kind.low ≤ i ∧ i ≤ kind.high := by
  obtain ⟨⟨n, r⟩, rfl, hcheck⟩ := ok_of_bind h
  cases n with
  | whole n =>
    obtain ⟨hrange, hcheck⟩ := ok_of_guard hcheck
    cases hcheck
    exact ⟨n, rfl, rfl, hrange⟩
  | double d => cases hcheck

theorem accords_boolean : Accords (fun _ => boolean) fun v b => v = .bool b := by
  intro room s a rest v rest' (hread : boolean s = _) hvalue
  unfold boolean at hread
  split at hread
  · cases hread
  rename_i b r hs
  split at hread
  · rename_i cs w hb
    obtain ⟨r', hletters, hread⟩ := ok_of_map hread
    cases hread
    rw [value_literal hs hb, hletters] at hvalue
    cases hvalue
    exact ⟨rfl, rfl⟩
  · cases hread

theorem accords_integer (kind : IntegerKind) :
    Accords (fun _ => integer kind) fun v i =>
      ∃ n : Whole, v = .whole n ∧ n.value = i ∧ kind.low ≤ i ∧ i ≤ kind.high := by
  intro room s a rest v rest' (hread : integer kind s = _) hvalue
  unfold integer at hread
  split at hread
  · cases hread
  rename_i b r hs
  rw [value_of_blanks hs] at hvalue
  split at hread
  · rename_i hminus
    obtain ⟨n, hnumber, hn⟩ := of_check hread
    rw [hminus, value_minus, hnumber] at hvalue
    cases hvalue
    exact ⟨rfl, n, rfl, hn⟩
  split at hread
  · rename_i hdigit
    obtain ⟨n, hnumber, hn⟩ := of_check hread
    rw [value_digit hdigit, hnumber] at hvalue
    cases hvalue
    exact ⟨rfl, n, rfl, hn⟩
  · cases hread

theorem accords_time : Accords (fun _ => time) fun v t => v = .ofInt64 t := by
  intro room s a rest v rest' hread hvalue
  obtain ⟨⟨i, r⟩, hinteger, hread⟩ := ok_of_map hread
  obtain ⟨hrest, n, rfl, rfl, hlo, hhi⟩ := accords_integer signed64 room s _ _ _ _ hinteger hvalue
  cases hread
  refine ⟨hrest, ?_⟩
  have hback : (Int64.ofInt n.value).toInt = n.value :=
    Int64.toInt_ofInt_of_le hlo (Int.lt_of_le_of_lt hhi (by decide))
  obtain ⟨value, hrange⟩ := n
  simp only [ofInt64, hback]

/-- Null, or what means something. -/
inductive Optionally {α : Type} (means : Json → α → Prop) : Json → Option α → Prop
  | null : Optionally means .null none
  | said {v : Json} {a : α} (h : means v a) : Optionally means v (some a)

theorem Accords.optional {α : Type} {item : Nat → Bytes → Except Fault (Got α)}
    {means : Json → α → Prop} (h : Accords item means) :
    Accords (fun room => Reader.optional (item room)) (Optionally means) := by
  intro room s a rest v rest' (hread : Reader.optional (item room) s = _) hvalue
  unfold Reader.optional at hread
  split at hread
  · rename_i hs
    rw [value, hs] at hvalue
    cases hvalue
  rename_i b r hs
  split at hread
  · rename_i hb
    obtain ⟨r', hletters, hread⟩ := ok_of_map hread
    cases hread
    rw [hb] at hs
    rw [value_literal hs rfl, hletters] at hvalue
    cases hvalue
    exact ⟨rfl, .null⟩
  · rw [value_of_blanks hs] at hvalue
    obtain ⟨⟨x, r'⟩, hitem, hread⟩ := ok_of_map hread
    cases hread
    obtain ⟨hrest, hmeans⟩ := h room _ _ _ _ _ hitem hvalue
    exact ⟨hrest, .said hmeans⟩

/-- An object of values is a value. -/
theorem value_of_map {room : Nat} {s rest : Bytes} {ms : List (String × Json)}
    (h : Reader.map room value s = .ok (ms, rest)) : value room s = .ok (.object ms, rest) := by
  unfold Reader.map at h
  split at h
  · cases h
  rename_i b r hs
  rw [value_of_blanks hs]
  obtain ⟨rfl, h⟩ := ok_of_guard h
  cases room with
  | zero => cases h
  | succ room =>
    change members (value room) (r.length + 1) true r = .ok (ms, rest) at h
    rw [value_object, h]
    rfl

theorem accords_map : Accords (Reader.map · value) fun v ms => v = .object ms := by
  intro room s a rest v rest' hread hvalue
  cases (value_of_map hread).symm.trans hvalue
  exact ⟨rfl, rfl⟩

/-! ## Whole documents -/

section Documents

variable {α : Type} {s : Bytes}

/-- A document is read if its value is and nothing but blanks follow. -/
theorem document_eq_ok_iff {item : Bytes → Except Fault (Got α)} {v : α} :
    document item s = .ok v ↔ ∃ rest, item s = .ok (v, rest) ∧ skipBlanks rest = [] := by
  rw [document]
  cases item s with
  | error f =>
    constructor
    · rintro ⟨⟩
    · rintro ⟨_, ⟨⟩, -⟩
  | ok got =>
    obtain ⟨u, rest⟩ := got
    dsimp only
    cases hrest : skipBlanks rest with
    | nil =>
      constructor
      · rintro ⟨⟩
        exact ⟨rest, rfl, hrest⟩
      · rintro ⟨_, ⟨⟩, -⟩
        rfl
    | cons b r =>
      constructor
      · rintro ⟨⟩
      · rintro ⟨_, ⟨⟩, hnone⟩
        cases hrest.symm.trans hnone

theorem Accords.document {read : Nat → Bytes → Except Fault (Got α)} {means : Json → α → Prop}
    {a : α} {w : Json} (h : Accords read means)
    (hread : Reader.document (read maxDepth) s = .ok a) (hraw : readRaw s = .ok w) :
    means w a := by
  obtain ⟨rest, hread, -⟩ := document_eq_ok_iff.mp hread
  obtain ⟨rest', hvalue, -⟩ := document_eq_ok_iff.mp hraw
  exact (h maxDepth s a rest w rest' hread hvalue).2

/-- A document that is an object is one once its repeated members are settled. -/
theorem readRaw_of_readObject {members : List (String × Json)}
    (h : readObject s = .ok members) :
    ∃ raw, readRaw s = .ok (.object raw) ∧ members = settleMembers (settledMembers raw) := by
  rw [readObject] at h
  obtain ⟨raw, hdocument, hmembers⟩ := ok_of_map h
  obtain ⟨rest, hmap, hrest⟩ := document_eq_ok_iff.mp hdocument
  exact ⟨raw, document_eq_ok_iff.mpr ⟨rest, value_of_map hmap, hrest⟩, hmembers.symm⟩

/-- An object that is read has no name twice. -/
theorem nodup_of_readObject {members : List (String × Json)} (h : readObject s = .ok members) :
    (names members).Nodup := by
  obtain ⟨raw, -, rfl⟩ := readRaw_of_readObject h
  exact nodup_names_settleMembers _

end Documents

/-! ## Fields -/

section Fields

variable {σ α : Type} {name : String} {presence : Presence} {set : α → σ → σ}

theorem Accords.deepField {read : Nat → Bytes → Except Fault (Got α)} {means : Json → α → Prop}
    (h : Accords read means) :
    Accords (Json.deepField name presence read set).read fun v u => ∃ a, means v a ∧ u = set a := by
  intro room s u rest v rest' hread hvalue
  obtain ⟨⟨a, r⟩, hread, hu⟩ := ok_of_map hread
  cases hu
  obtain ⟨hrest, hmeans⟩ := h room _ _ _ _ _ hread hvalue
  exact ⟨hrest, a, hmeans, rfl⟩

@[simp] theorem name_deepField {read : Nat → Bytes → Except Fault (Got α)} :
    (Json.deepField name presence read set).name = name := rfl

/-- The field is read up to where a value ends. -/
def Field.EndsAlike (f : Field σ) : Prop := Accords f.read fun _ _ => True

theorem Accords.endsAlike {read : Nat → Bytes → Except Fault (Got α)} {means : Json → α → Prop}
    (h : Accords read means) : (Json.deepField name presence read set).EndsAlike :=
  h.deepField.mono fun _ _ _ => trivial

/-- What the field is read into leaves a part of the record as it was. -/
def Field.Keeps {β : Type} (f : Field σ) (part : σ → β) : Prop :=
  ∀ room s u rest, f.read room s = .ok (u, rest) → ∀ v, part (u v) = part v

theorem keeps_deepField {β : Type} {part : σ → β} {read : Nat → Bytes → Except Fault (Got α)}
    (h : ∀ a v, part (set a v) = part v) : (deepField name presence read set).Keeps part := by
  intro room s u rest hread v
  obtain ⟨⟨a, r⟩, -, hu⟩ := ok_of_map hread
  cases hu
  exact h a v

end Fields

/-! ## Records -/

namespace Form

variable {σ α : Type} {form : Form σ} {room : Nat} {seen : List String} {v result : σ}
  {ms : List (String × Json)} {s rest rest' : Bytes}

/-- An update of the field was read from what a value was read from. -/
def ReadFrom (f : Field σ) (w : Json) (update : σ → σ) : Prop :=
  ∃ room s rest, f.read room s = .ok (update, rest) ∧ value room s = .ok (w, rest)

/-- What a record gathers from the members of an object: each field is read from the one member
of its name, and none that must be there is missing. -/
inductive Gathers (form : Form σ) : List String → σ → List (String × Json) → σ → Prop
  | done {seen : List String} {v : σ} (hmissing : form.missing? seen = none) :
      Gathers form seen v [] v
  | field {seen : List String} {v result : σ} {f : Field σ} {update : σ → σ} {name : String}
      {w : Json} {ms : List (String × Json)} (hfield : form.field? name = some f)
      (hnew : seen.contains name = false) (hread : ReadFrom f w update)
      (hmore : Gathers form (name :: seen) (update v) ms result) :
      Gathers form seen v ((name, w) :: ms) result
  | other {seen : List String} {v result : σ} {name : String} {w : Json}
      {ms : List (String × Json)} (hfield : form.field? name = none)
      (hmore : Gathers form seen v ms result) : Gathers form seen v ((name, w) :: ms) result

/-- What a record takes from the items of a list: the fields in their order, and fields at the end
may be left out if they may always be. -/
inductive Lists : List (Field σ) → σ → List Json → σ → Prop
  | done {fields : List (Field σ)} {v : σ} (hleft : ∀ f ∈ fields, f.presence = .always) :
      Lists fields v [] v
  | item {fields : List (Field σ)} {v result : σ} {f : Field σ} {update : σ → σ} {w : Json}
      {ws : List Json} (hread : ReadFrom f w update) (hmore : Lists fields (update v) ws result) :
      Lists (f :: fields) v (w :: ws) result

/-- A value has the form, and it means what the record holds. -/
inductive Records (form : Form σ) : Json → σ → Prop
  | object {ms : List (String × Json)} {result : σ} (h : form.Gathers [] form.blank ms result) :
      Records form (.object ms) result
  | list {ws : List Json} {result : σ} (h : Lists form.fields form.blank ws result) :
      Records form (.array ws) result

/-- Each field is read up to where a value ends. -/
def EndsAlike (form : Form σ) : Prop := ∀ f ∈ form.fields, f.EndsAlike

theorem mem_of_field? {name : String} {f : Field σ} (h : form.field? name = some f) :
    f ∈ form.fields ∧ f.name = name :=
  ⟨List.mem_of_find?_eq_some h, by simpa using List.find?_some h⟩

/-- One member after the other; those of no field are passed over to where they end. -/
theorem gathers_of_members {fuel fuel' : Nat} {first : Bool} (hform : form.EndsAlike)
    (h : form.members room fuel first seen v s = .ok (result, rest))
    (hvalues : Reader.members (value room) fuel' first s = .ok (ms, rest')) :
    rest' = rest ∧ form.Gathers seen v ms result := by
  induction fuel generalizing fuel' first seen v s ms with
  | zero => cases h
  | succ fuel ih =>
    cases fuel' with
    | zero => cases hvalues
    | succ fuel' =>
    obtain ⟨⟨name, r⟩, hname, h⟩ := ok_of_bind h
    obtain ⟨⟨name', r'⟩, hname', hvalues⟩ := ok_of_bind hvalues
    obtain ⟨rfl, rfl⟩ := Prod.mk.inj (Except.ok.inj (hname'.symm.trans hname))
    cases name' with
    | none =>
      cases hvalues
      dsimp only at h
      split at h
      · cases h
      rename_i hmissing
      split at h
      · cases h
        exact ⟨rfl, .done hmissing⟩
      · cases h
    | some name =>
      obtain ⟨t, hcolon, hvalues⟩ := ok_of_bind hvalues
      obtain ⟨⟨w, t'⟩, hw, hvalues⟩ := ok_of_bind hvalues
      obtain ⟨⟨more, t''⟩, hmore, hvalues⟩ := ok_of_bind hvalues
      cases hvalues
      dsimp only at h
      split at h
      · rename_i hfield
        split at h
        · cases h
        obtain ⟨u, hcolon', h⟩ := ok_of_bind h
        obtain ⟨u', hskip, h⟩ := ok_of_bind h
        obtain rfl := Except.ok.inj (hcolon.symm.trans hcolon')
        obtain rfl := Except.ok.inj ((skip_of_value hw).symm.trans hskip)
        obtain ⟨hrest, hgathers⟩ := ih h hmore
        exact ⟨hrest, .other hfield hgathers⟩
      · rename_i f hfield
        obtain ⟨hnew, h⟩ := ok_of_refusal h
        obtain ⟨u, hcolon', h⟩ := ok_of_bind h
        obtain ⟨⟨update, u'⟩, hread, h⟩ := ok_of_bind h
        obtain rfl := Except.ok.inj (hcolon.symm.trans hcolon')
        obtain ⟨rfl, -⟩ := hform f (mem_of_field? hfield).1 _ _ _ _ _ _ hread hw
        obtain ⟨hrest, hgathers⟩ := ih h hmore
        exact ⟨hrest, .field hfield (Bool.eq_false_iff.mpr hnew) ⟨_, _, _, hread, hw⟩ hgathers⟩

/-- The items of a list, the first of which stands where the list begins. -/
def listItems (item : Bytes → Except Fault (Got α)) (fuel : Nat) (first : Bool) (s : Bytes) :
    Except Fault (Got (List α)) := do
  match ← nextItem first s with
  | none => .ok ([], (skipBlanks s).tail)
  | some s =>
    let (x, s) ← item s
    let (xs, s) ← moreItems item fuel s
    .ok (x :: xs, s)

theorem items_eq (item : Bytes → Except Fault (Got α)) (s : Bytes) :
    Reader.items item s = listItems item s.length true s := by
  rw [Reader.items, listItems, nextItem]
  cases hs : skipBlanks s with
  | nil => rfl
  | cons b r =>
    by_cases hclose : b = closeList
    · simp only [hclose, if_true]
      rfl
    · simp only [hclose, if_true, if_false]
      rfl

theorem moreItems_eq (item : Bytes → Except Fault (Got α)) (fuel : Nat) (s : Bytes) :
    moreItems item (fuel + 1) s = listItems item fuel false s := by
  rw [moreItems, listItems, nextItem]
  cases hs : skipBlanks s with
  | nil => rfl
  | cons b r =>
    by_cases hclose : b = closeList
    · simp only [hclose, if_true]
      rfl
    by_cases hcomma : b = comma
    · cases hr : skipBlanks r with
      | nil =>
        simp only [hcomma, hr, if_true, if_false, Bool.false_eq_true]
        rfl
      | cons c r =>
        by_cases hc : c = closeList
        · simp only [hcomma, hr, hc, if_true, if_false, Bool.false_eq_true]
          rfl
        · simp only [hcomma, hr, hc, if_true, if_false, Bool.false_eq_true]
          rfl
    · simp only [hclose, hcomma, if_false, Bool.false_eq_true]
      rfl

theorem nextItem_eq_none {first : Bool} :
    nextItem first s = .ok none ↔ ∃ r, skipBlanks s = closeList :: r := by
  rw [nextItem]
  cases hs : skipBlanks s with
  | nil => simp
  | cons b r =>
    by_cases hclose : b = closeList
    · simp [hclose]
    by_cases hcomma : b = comma
    · cases first
      · cases hr : skipBlanks r with
        | nil => simp [hcomma, hr, show comma ≠ closeList by decide]
        | cons c r =>
          by_cases hc : c = closeList <;> simp [hcomma, hr, hc, show comma ≠ closeList by decide]
      · simp [hclose]
    · cases first <;> simp [hclose, hcomma]

theorem listItems_of_end {item : Bytes → Except Fault (Got α)} {fuel : Nat} {first : Bool}
    (h : nextItem first s = .ok none) :
    listItems item fuel first s = .ok ([], (skipBlanks s).tail) := by
  rw [listItems, h]
  rfl

theorem of_listItems_nil {item : Bytes → Except Fault (Got α)} {fuel : Nat} {first : Bool}
    (h : listItems item fuel first s = .ok ([], rest)) :
    nextItem first s = .ok none ∧ rest = (skipBlanks s).tail := by
  obtain ⟨next, hnext, h⟩ := ok_of_bind h
  cases next with
  | none =>
    cases h
    exact ⟨hnext, rfl⟩
  | some r =>
    obtain ⟨got, -, h⟩ := ok_of_bind h
    obtain ⟨more, -, h⟩ := ok_of_bind h
    cases h

/-- A list that has a first item goes on behind it. -/
theorem listItems_eq_cons_iff {item : Bytes → Except Fault (Got α)} {fuel : Nat} {first : Bool}
    {x : α} {xs : List α} :
    listItems item fuel first s = .ok (x :: xs, rest) ↔
      ∃ n r t, fuel = n + 1 ∧ nextItem first s = .ok (some r) ∧ item r = .ok (x, t) ∧
        listItems item n false t = .ok (xs, rest) := by
  constructor
  · intro h
    obtain ⟨next, hnext, h⟩ := ok_of_bind h
    cases next with
    | none => cases h
    | some r =>
      obtain ⟨⟨y, t⟩, hitem, h⟩ := ok_of_bind h
      obtain ⟨⟨ys, t'⟩, hmore, h⟩ := ok_of_bind h
      cases h
      cases fuel with
      | zero => cases hmore
      | succ n =>
        rw [moreItems_eq] at hmore
        exact ⟨n, r, t, rfl, hnext, hitem, hmore⟩
  · rintro ⟨n, r, t, rfl, hnext, hitem, hmore⟩
    rw [← moreItems_eq] at hmore
    rw [listItems, hnext]
    simp only [bind, Except.bind, hitem, hmore]

theorem of_endOfItems (h : endOfItems s = .ok rest) : skipBlanks s = closeList :: rest := by
  unfold endOfItems at h
  split at h
  · cases h
  rename_i b r hs
  split at h
  · rename_i hclose
    cases h
    rw [hs, hclose]
  split at h
  · dsimp only at h
    split at h <;> cases h
  · cases h

/-- One item after the other. When the list ends the fields that are left keep what they have. -/
theorem lists_of_items {fields : List (Field σ)} {index fuel : Nat} {ws : List Json} {t : Bytes}
    (hfields : ∀ f ∈ fields, f.EndsAlike)
    (h : form.items room fields index v s = .ok (result, t)) (hend : endOfItems t = .ok rest)
    (hvalues : listItems (value room) fuel (index == 0) s = .ok (ws, rest')) :
    rest' = rest ∧ Lists fields v ws result := by
  induction fields generalizing index v s fuel ws with
  | nil =>
    rw [items] at h
    split at h
    swap
    · cases h
    cases h
    have hclose := of_endOfItems hend
    rw [listItems_of_end (nextItem_eq_none.mpr ⟨_, hclose⟩), hclose] at hvalues
    cases hvalues
    exact ⟨rfl, .done fun _ hf => absurd hf List.not_mem_nil⟩
  | cons f fields ih =>
    obtain ⟨next, hnext, h⟩ := ok_of_bind h
    have hmore := fun f hf => hfields f (List.mem_cons_of_mem _ hf)
    cases next with
    | none =>
      dsimp only at h
      split at h
      swap
      · cases h
      rename_i hpresence
      have hclosed := nextItem_eq_none.mp hnext
      rw [listItems_of_end hnext] at hvalues
      cases hvalues
      have hvalues : listItems (value room) fuel (index + 1 == 0) s =
          .ok ([], (skipBlanks s).tail) :=
        listItems_of_end (nextItem_eq_none.mpr hclosed)
      obtain ⟨hrest, hlists⟩ := ih hmore h hvalues
      cases hlists with
      | done hleft => exact ⟨hrest, .done (List.forall_mem_cons.mpr ⟨hpresence, hleft⟩)⟩
    | some r =>
      obtain ⟨⟨update, u⟩, hread, h⟩ := ok_of_bind h
      cases ws with
      | nil => cases (of_listItems_nil hvalues).1.symm.trans hnext
      | cons w ws =>
        obtain ⟨n, r', u', rfl, hnext', hw, hws⟩ := listItems_eq_cons_iff.mp hvalues
        cases hnext.symm.trans hnext'
        obtain ⟨rfl, -⟩ := hfields f List.mem_cons_self _ _ _ _ _ _ hread hw
        obtain ⟨hrest, hlists⟩ := ih hmore h hws
        exact ⟨hrest, .item ⟨_, _, _, hread, hw⟩ hlists⟩

/-- **A record and a value of one text say the same.** -/
theorem accords_read (hform : form.EndsAlike) : Accords form.read form.Records := by
  intro room s a rest v rest' hread hvalue
  unfold Form.read at hread
  split at hread
  · cases hread
  rename_i b r hs
  rw [value_of_blanks hs] at hvalue
  split at hread
  · rename_i hopen
    cases room with
    | zero => cases hread
    | succ room =>
      obtain ⟨⟨result, t⟩, hitems, hread⟩ := ok_of_bind hread
      obtain ⟨t', hend, hread⟩ := ok_of_bind hread
      cases hread
      rw [hopen, value_list, items_eq] at hvalue
      obtain ⟨⟨ws, u⟩, hws, hvalue⟩ := ok_of_map hvalue
      cases hvalue
      obtain ⟨hrest, hlists⟩ := lists_of_items hform hitems hend hws
      exact ⟨hrest, .list hlists⟩
  split at hread
  · rename_i hopen
    cases room with
    | zero => cases hread
    | succ room =>
      change form.members room (r.length + 1) true [] form.blank r = .ok (a, rest) at hread
      rw [hopen, value_object] at hvalue
      obtain ⟨⟨ms, u⟩, hms, hvalue⟩ := ok_of_map hvalue
      cases hvalue
      obtain ⟨hrest, hgathers⟩ := gathers_of_members hform hread hms
      exact ⟨hrest, .object hgathers⟩
  · cases hread

/-! ## What is given for a field -/

/-- All that is given for the field of a name and a place: what the object has under the name, or
what the list has in the place. -/
def given (name : String) (i : Nat) : Json → List Json
  | .object ms => (ms.filter fun m => m.1 = name).map (·.2)
  | .array ws => ws[i]?.toList
  | _ => []

/-- What there is for the field once repeated names are settled. -/
def member? (name : String) (i : Nat) : Json → Option Json
  | .object ms => lookup name ms
  | .array ws => ws[i]?
  | _ => none

/-- Of what is given under one name the last remains. -/
theorem member?_settled (name : String) (i : Nat) (w : Json) :
    member? name i w.settled = (given name i w).getLast?.map settled := by
  cases w with
  | object ms =>
    have hfilter : (settledMembers ms).filter (fun m => m.1 = name) =
        (ms.filter fun m => m.1 = name).map fun m => (m.1, m.2.settled) := by
      rw [settledMembers_eq, List.filter_map]
      rfl
    rw [settled, member?, lookup_settleMembers, lookup_eq_filter, List.filter_reverse,
      List.head?_reverse, hfilter, given, List.getLast?_map, List.getLast?_map, Option.map_map,
      Option.map_map]
    rfl
  | array ws =>
    rw [settled, member?, given, settledItems_eq, List.getElem?_map]
    cases ws[i]? <;> rfl
  | _ => rfl

/-- One field, of this name and in this place, settles a part of the record, which is then what
the value in its place means. -/
def Settles {β : Type} (form : Form σ) (name : String) (i : Nat) (part : σ → β)
    (means : Json → β → Prop) : Prop :=
  ∃ before f after, form.fields = before ++ f :: after ∧ before.length = i ∧ f.name = name ∧
    Accords f.read (fun w u => ∀ v, means w (part (u v))) ∧
    ∀ g ∈ before ++ after, g.name ≠ name ∧ g.Keeps part

section Settles

variable {β : Type} {part : σ → β} {means : Json → β → Prop} {name : String} {i : Nat}
  {after : List (Field σ)} {presence : Presence} {set : α → σ → σ}

/-- One of the fields settles a part if no other one has its name or touches the part. -/
theorem settles_of_fields (before : List (Field σ)) {read : Nat → Bytes → Except Fault (Got α)}
    (hfields : form.fields = before ++ deepField name presence read set :: after)
    (haccords : Accords read fun w a => ∀ v, means w (part (set a v)))
    (hothers : ∀ g ∈ before ++ after, g.name ≠ name ∧ g.Keeps part) :
    form.Settles name before.length part means := by
  refine ⟨before, _, after, hfields, rfl, rfl, haccords.deepField.mono ?_, hothers⟩
  rintro w u ⟨a, hmeans, rfl⟩ v
  exact hmeans v

theorem ReadFrom.kept {f : Field σ} {w : Json} {update : σ → σ} (h : ReadFrom f w update)
    (hkeeps : f.Keeps part) (v : σ) : part (update v) = part v := by
  obtain ⟨room, s, rest, hread, -⟩ := h
  exact hkeeps room s update rest hread v

theorem ReadFrom.meant {f : Field σ} {w : Json} {update : σ → σ} (h : ReadFrom f w update)
    (haccords : Accords f.read fun w u => ∀ v, means w (part (u v))) (v : σ) :
    means w (part (update v)) := by
  obtain ⟨room, s, rest, hread, hvalue⟩ := h
  exact (haccords room s update rest w rest hread hvalue).2 v

/-- A part stays as it is where no member has a name that is its own. -/
theorem Gathers.kept (h : form.Gathers seen v ms result)
    (hkeeps : ∀ f ∈ form.fields, f.name ≠ name → f.Keeps part) (hname : name ∉ names ms) :
    part result = part v := by
  induction h with
  | done => rfl
  | field hfield hnew hread hmore ih =>
    obtain ⟨hhead, hmem⟩ := not_or.mp (List.mem_cons.not.mp hname)
    obtain ⟨hf, rfl⟩ := mem_of_field? hfield
    rw [ih hmem, hread.kept (hkeeps _ hf (Ne.symm hhead))]
  | other hfield hmore ih => exact ih fun h => hname (List.mem_cons_of_mem _ h)

/-- A field is not read again. -/
theorem Gathers.not_mem_of_seen {f : Field σ} (h : form.Gathers seen v ms result)
    (hfield : form.field? name = some f) (hseen : seen.contains name = true) :
    name ∉ names ms := by
  induction h with
  | done => exact List.not_mem_nil
  | field hother hnew hread hmore ih =>
    refine fun hmem => (List.mem_cons.mp hmem).elim (fun heq => ?_) (ih ?_)
    · dsimp only at heq
      rw [← heq, hseen] at hnew
      cases hnew
    · rw [List.contains_cons, hseen, Bool.or_true]
  | other hother hmore ih =>
    refine fun hmem => (List.mem_cons.mp hmem).elim (fun heq => ?_) (ih hseen)
    dsimp only at heq
    rw [← heq, hfield] at hother
    cases hother

theorem given_cons (name : String) (i : Nat) (n : String) (w : Json) (ms : List (String × Json)) :
    given name i (.object ((n, w) :: ms)) =
      if n = name then w :: given name i (.object ms) else given name i (.object ms) := by
  by_cases hn : n = name <;> simp [given, hn]

theorem given_of_not_mem (h : name ∉ names ms) : given name i (.object ms) = [] := by
  rw [given, List.map_eq_nil_iff, List.filter_eq_nil_iff]
  rintro ⟨k, w⟩ hm hk
  exact h (List.mem_map.mpr ⟨_, hm, of_decide_eq_true hk⟩)

/-- A field of the form is the one that settles the part, or has another name and leaves it. -/
theorem Settles.own_or_other {f : Field σ} (h : form.Settles name i part means)
    (hf : f ∈ form.fields) :
    f.name = name ∧ (Accords f.read fun w u => ∀ v, means w (part (u v))) ∨
      f.name ≠ name ∧ f.Keeps part := by
  obtain ⟨before, own, after, hfields, -, hown, haccords, hothers⟩ := h
  rw [hfields, List.mem_append, List.mem_cons, or_left_comm, ← List.mem_append] at hf
  rcases hf with rfl | hf
  · exact .inl ⟨hown, haccords⟩
  · exact .inr (hothers f hf)

theorem Settles.field?_ne_none (h : form.Settles name i part means) : form.field? name ≠ none := by
  obtain ⟨before, own, after, hfields, -, hown, -⟩ := h
  intro hnone
  have hmem : own ∈ form.fields := by
    rw [hfields]
    exact List.mem_append_right _ List.mem_cons_self
  exact List.find?_eq_none.mp hnone own hmem (decide_eq_true hown)

/-- In an object, a settled part is the default or what the one member of the name means. -/
theorem Gathers.settled_part (h : form.Gathers seen v ms result)
    (hsettles : form.Settles name i part means) :
    given name i (.object ms) = [] ∧ part result = part v ∨
      ∃ u, given name i (.object ms) = [u] ∧ means u (part result) := by
  have hkeeps : ∀ g ∈ form.fields, g.name ≠ name → g.Keeps part := fun g hg hne =>
    (hsettles.own_or_other hg).elim (fun hown => absurd hown.1 hne) And.right
  induction h with
  | done => exact .inl ⟨rfl, rfl⟩
  | @field seen v result g update n w ms hfield hnew hread hmore ih =>
    obtain ⟨hmem, rfl⟩ := mem_of_field? hfield
    rcases hsettles.own_or_other hmem with ⟨rfl, haccords⟩ | ⟨hne, hkept⟩
    · have hseen : (g.name :: seen).contains g.name = true := by
        rw [List.contains_cons, BEq.rfl, Bool.true_or]
      have hnone := hmore.not_mem_of_seen hfield hseen
      refine .inr ⟨w, ?_, ?_⟩
      · rw [given_cons, if_pos rfl, given_of_not_mem hnone]
      · rw [hmore.kept hkeeps hnone]
        exact hread.meant haccords v
    · rw [given_cons, if_neg hne]
      rwa [hread.kept hkept] at ih
  | @other seen v result n w ms hfield hmore ih =>
    have hne : n ≠ name := by
      rintro rfl
      exact hsettles.field?_ne_none hfield
    rwa [given_cons, if_neg hne]

theorem Lists.kept {fields : List (Field σ)} {ws : List Json} (h : Lists fields v ws result)
    (hkeeps : ∀ f ∈ fields, f.Keeps part) : part result = part v := by
  induction h with
  | done => rfl
  | item hread hmore ih =>
    rw [ih fun f hf => hkeeps f (List.mem_cons_of_mem _ hf),
      hread.kept (hkeeps _ List.mem_cons_self)]

/-- In a list, a settled part is the default or what the item in its place means. -/
theorem Lists.settled_part {ws : List Json} (h : Lists form.fields v ws result)
    (hsettles : form.Settles name i part means) :
    given name i (.array ws) = [] ∧ part result = part v ∨
      ∃ u, given name i (.array ws) = [u] ∧ means u (part result) := by
  obtain ⟨before, f, after, hfields, rfl, -, haccords, hothers⟩ := hsettles
  rw [hfields] at h
  clear hfields
  induction before generalizing v ws with
  | nil =>
    cases h with
    | done => exact .inl ⟨rfl, rfl⟩
    | item hread hmore =>
      refine .inr ⟨_, rfl, ?_⟩
      rw [hmore.kept fun g hg => (hothers g hg).2]
      exact hread.meant haccords v
  | cons g before ih =>
    cases h with
    | done => exact .inl ⟨rfl, rfl⟩
    | item hread hmore =>
      have hkept := hread.kept (hothers g List.mem_cons_self).2 v
      have hlater := ih hmore fun g hg => hothers g (List.mem_cons_of_mem _ hg)
      rwa [hkept] at hlater

/-- **A settled part is what is given for it.** Nothing is given, and it keeps its default; or one
value is, and not two. -/
theorem Records.settled_part {w : Json} (h : form.Records w result)
    (hsettles : form.Settles name i part means) :
    given name i w = [] ∧ part result = part form.blank ∨
      ∃ u, given name i w = [u] ∧ means u (part result) := by
  cases h with
  | object hgathers => exact hgathers.settled_part hsettles
  | list hlists => exact hlists.settled_part hsettles

theorem length_given (name : String) (i : Nat) (ms : List (String × Json)) :
    (given name i (.object ms)).length = (names ms).count name := by
  induction ms with
  | nil => rfl
  | cons m ms ih =>
    obtain ⟨n, w⟩ := m
    rw [given_cons, names, List.map_cons, List.count_cons, ← names, ← ih]
    by_cases hn : n = name <;> simp [hn]

/-- No field is given twice. -/
theorem Records.count_le_one (h : form.Records (.object ms) result)
    (hsettles : form.Settles name i part means) : (names ms).count name ≤ 1 := by
  rw [← length_given name i]
  rcases h.settled_part hsettles with ⟨hgiven, -⟩ | ⟨u, hgiven, -⟩
  · rw [hgiven]
    exact Nat.zero_le 1
  · rw [hgiven]
    exact Nat.le_refl 1

theorem mem_given {w : Json} (i : Nat) (hmem : (name, w) ∈ ms) : w ∈ given name i (.object ms) :=
  List.mem_map.mpr ⟨(name, w), List.mem_filter.mpr ⟨hmem, decide_eq_true rfl⟩, rfl⟩

/-- Each member that a field is named for is what the field is read from. -/
theorem Records.meant {w : Json} (h : form.Records (.object ms) result)
    (hsettles : form.Settles name i part means) (hmem : (name, w) ∈ ms) :
    means w (part result) := by
  have hgiven := mem_given i hmem
  rcases h.settled_part hsettles with ⟨hnone, -⟩ | ⟨u, hone, hu⟩
  · rw [hnone] at hgiven
    cases hgiven
  · rw [hone, List.mem_singleton] at hgiven
    rwa [hgiven]

end Settles

end Form

end IdentityTokens.Json
