import Mathlib.Data.List.Forall2
import IdentityTokens.Proofs.Json.Accord

/-! # What a document decodes to

A document that can be read as a value decodes as a record exactly if the value has the form of
one. What is decoded then is known already, as the two readings accord; so all that is left to see
is that such a document is never refused. Members that no field is named for may be anything. -/
namespace IdentityTokens.Json

open Reader

/-- Where a value that means something can be read, a reader reads what it means, up to the same
place. -/
def Yields {α : Type} (read : Nat → Bytes → Except Fault (Got α)) (means : Json → α → Prop) :
    Prop :=
  ∀ room s v rest a, value room s = .ok (v, rest) → means v a → read room s = .ok (a, rest)

/-- A reader reads what values mean, and nothing else; a value means one thing at most. -/
structure ReadsAs {α : Type} (read : Nat → Bytes → Except Fault (Got α)) (means : Json → α → Prop) :
    Prop where
  accords : Accords read means
  yields : Yields read means
  unique : ∀ w a b, means w a → means w b → a = b

/-- A document that is a value is read as what the value means. -/
theorem ReadsAs.document {α : Type} {read : Nat → Bytes → Except Fault (Got α)}
    {means : Json → α → Prop} {s : Bytes} {w : Json} {a : α} (h : ReadsAs read means)
    (hraw : readRaw s = .ok w) : Reader.document (read maxDepth) s = .ok a ↔ means w a := by
  refine ⟨fun hread => h.accords.document hread hraw, fun hmeans => ?_⟩
  obtain ⟨rest, hvalue, hrest⟩ := document_eq_ok_iff.mp hraw
  exact document_eq_ok_iff.mpr ⟨rest, h.yields _ _ _ _ _ hvalue hmeans, hrest⟩

/-! ## Readers of one type -/

/-- What a value is read from, told by what it is. -/
def Origin (room : Nat) (s rest : Bytes) : Json → Prop
  | .bool b => ∃ c cs r, skipBlanks s = c :: r ∧ literal? c = some (cs, .bool b) ∧
      letters cs r = .ok rest
  | .null => ∃ r, skipBlanks s = 'n'.toUInt8 :: r ∧ letters ['u', 'l', 'l'] r = .ok rest
  | .text t => ∃ r, skipBlanks s = Quotation.quote :: r ∧ Quotation.read r = .ok (t, rest)
  | .array ws => ∃ depth r, room = depth + 1 ∧ skipBlanks s = openList :: r ∧
      items (value depth) r = .ok (ws, rest)
  | .object ms => ∃ depth r, room = depth + 1 ∧ skipBlanks s = openObject :: r ∧
      members (value depth) (r.length + 1) true r = .ok (ms, rest)
  | _ => True

section Readers

variable {α : Type} {read : Nat → Bytes → Except Fault (Got α)} {means : Json → α → Prop}
  {room fuel : Nat} {first : Bool} {s rest rest' : Bytes} {v : Json}

theorem origin_of_value (h : value room s = .ok (v, rest)) : Origin room s rest v := by
  cases valueAt_of_value h with
  | @literal _ _ _ _ b cs v hs hb hread =>
    have hliteral := hb
    unfold literal? at hb
    split at hb
    · rename_i hn
      cases hb
      exact ⟨_, hn ▸ hs, hread⟩
    split at hb
    · cases hb
      exact ⟨_, _, _, hs, hliteral, hread⟩
    split at hb
    · cases hb
      exact ⟨_, _, _, hs, hliteral, hread⟩
    · cases hb
  | text hs hread => exact ⟨_, hs, hread⟩
  | @negative _ _ _ _ n | @natural _ _ _ _ _ n => cases n <;> exact trivial
  | array hs hread | object hs hread => exact ⟨_, _, rfl, hs, hread⟩

theorem yields_text : Yields (fun _ => Reader.text) fun v s => v = .text s := by
  rintro room s _ rest t hvalue rfl
  obtain ⟨r, hs, hread⟩ := origin_of_value hvalue
  change Reader.text s = _
  rw [Reader.text, hs]
  exact (if_pos rfl).trans hread

theorem readsAs_text : ReadsAs (fun _ => Reader.text) fun v s => v = .text s where
  accords := accords_text
  yields := yields_text
  unique := by
    rintro _ a b rfl h
    cases h
    rfl

theorem yields_boolean : Yields (fun _ => boolean) fun v b => v = .bool b := by
  rintro room s _ rest b hvalue rfl
  obtain ⟨c, cs, r, hs, hc, hread⟩ := origin_of_value hvalue
  change boolean s = _
  rw [boolean, hs]
  dsimp only
  rw [hc]
  dsimp only
  rw [hread]
  rfl

theorem readsAs_boolean : ReadsAs (fun _ => boolean) fun v b => v = .bool b where
  accords := accords_boolean
  yields := yields_boolean
  unique := by
    rintro _ a b rfl h
    cases h
    rfl

/-- Whatever cannot be null may be read in the place of null. -/
theorem Yields.optional {item : Nat → Bytes → Except Fault (Got α)} (h : Yields item means)
    (hnull : ∀ a, ¬ means .null a) :
    Yields (fun room => Reader.optional (item room)) (Optionally means) := by
  intro room s v rest a hvalue hmeans
  change Reader.optional (item room) s = _
  rw [Reader.optional]
  cases hmeans with
  | null =>
    obtain ⟨r, hs, hread⟩ := origin_of_value hvalue
    rw [hs]
    dsimp only
    rw [if_pos rfl, hread]
    rfl
  | @said v a hmeans =>
    cases hs : skipBlanks s with
    | nil =>
      rw [value, hs] at hvalue
      cases hvalue
    | cons b r =>
      have hb : b ≠ 'n'.toUInt8 := by
        rintro rfl
        rw [value_literal hs rfl] at hvalue
        obtain ⟨_, -, hv⟩ := ok_of_map hvalue
        cases hv
        exact hnull a hmeans
      rw [value_of_blanks hs] at hvalue
      dsimp only
      rw [if_neg hb, h room _ _ _ _ hvalue hmeans]
      rfl

theorem ReadsAs.optional (h : ReadsAs read means) (hnull : ∀ a, ¬ means .null a) :
    ReadsAs (fun room => Reader.optional (read room)) (Optionally means) where
  accords := h.accords.optional
  yields := h.yields.optional hnull
  unique := by
    intro w a b ha hb
    cases ha with
    | null =>
      cases hb with
      | null => rfl
      | said hb => exact absurd hb (hnull _)
    | said ha =>
      cases hb with
      | null => exact absurd ha (hnull _)
      | said hb => rw [h.unique _ _ _ ha hb]

theorem readsAs_optional_text :
    ReadsAs (fun _ => Reader.optional Reader.text) (Optionally fun v s => v = .text s) :=
  readsAs_text.optional fun _ => nofun

/-! ## Lists -/

theorem Accords.listItems {as : List α} {ws : List Json} (h : Accords read means)
    (hread : Form.listItems (read room) fuel first s = .ok (as, rest))
    (hvalues : Form.listItems (value room) fuel first s = .ok (ws, rest')) :
    rest' = rest ∧ List.Forall₂ means ws as := by
  induction ws generalizing fuel first s as with
  | nil =>
    obtain ⟨hnext, rfl⟩ := Form.of_listItems_nil hvalues
    rw [Form.listItems_of_end hnext] at hread
    cases hread
    exact ⟨rfl, .nil⟩
  | cons w ws ih =>
    obtain ⟨n, r, t, rfl, hnext, hvalue, hmore⟩ := Form.listItems_eq_cons_iff.mp hvalues
    cases as with
    | nil => cases (Form.of_listItems_nil hread).1.symm.trans hnext
    | cons a as =>
      obtain ⟨n', r', t', hn, hnext', hitem, hmore'⟩ := Form.listItems_eq_cons_iff.mp hread
      cases hn
      cases hnext.symm.trans hnext'
      obtain ⟨rfl, hmeans⟩ := h room _ _ _ _ _ hitem hvalue
      obtain ⟨hrest, hall⟩ := ih hmore' hmore
      exact ⟨hrest, .cons hmeans hall⟩

theorem Yields.listItems {as : List α} {ws : List Json} (h : Yields read means)
    (hvalues : Form.listItems (value room) fuel first s = .ok (ws, rest))
    (hall : List.Forall₂ means ws as) :
    Form.listItems (read room) fuel first s = .ok (as, rest) := by
  induction hall generalizing fuel first s with
  | nil =>
    obtain ⟨hnext, rfl⟩ := Form.of_listItems_nil hvalues
    exact Form.listItems_of_end hnext
  | cons hmeans _ ih =>
    obtain ⟨n, r, t, rfl, hnext, hvalue, hmore⟩ := Form.listItems_eq_cons_iff.mp hvalues
    have hitem := h room _ _ _ _ hvalue hmeans
    exact Form.listItems_eq_cons_iff.mpr ⟨n, r, t, rfl, hnext, hitem, ih hmore⟩

/-- A value is a list, and its items mean these one for one. -/
def Itemwise (means : Json → α → Prop) (w : Json) (as : List α) : Prop :=
  ∃ ws, w = .array ws ∧ List.Forall₂ means ws as

theorem Accords.list (h : Accords read means) :
    Accords (Reader.list · read) (Itemwise means) := by
  intro room s as rest v rest' (hread : Reader.list room read s = _) hvalue
  unfold Reader.list at hread
  split at hread
  · cases hread
  rename_i b r hs
  rw [value_of_blanks hs] at hvalue
  obtain ⟨rfl, hread⟩ := ok_of_guard hread
  cases room with
  | zero => cases hread
  | succ room =>
    rw [value_list] at hvalue
    obtain ⟨⟨ws, t⟩, hws, hvalue⟩ := ok_of_map hvalue
    cases hvalue
    change items (read room) r = _ at hread
    rw [Form.items_eq] at hread hws
    obtain ⟨hrest, hall⟩ := h.listItems hread hws
    exact ⟨hrest, ws, rfl, hall⟩

theorem Yields.list (h : Yields read means) : Yields (Reader.list · read) (Itemwise means) := by
  rintro room s _ rest as hvalue ⟨ws, rfl, hall⟩
  obtain ⟨depth, r, rfl, hs, hitems⟩ := origin_of_value hvalue
  rw [Form.items_eq] at hitems
  change Reader.list (depth + 1) read s = _
  rw [Reader.list, hs]
  dsimp only
  rw [if_pos rfl, Form.items_eq]
  exact h.listItems hitems hall

theorem ReadsAs.list (h : ReadsAs read means) :
    ReadsAs (Reader.list · read) (Itemwise means) where
  accords := h.accords.list
  yields := h.yields.list
  unique := by
    rintro w as bs ⟨ws, rfl, ha⟩ ⟨ws', hws, hb⟩
    cases hws
    exact List.right_unique_forall₂' (fun {u a b} => h.unique u a b) ha hb

end Readers

/-! ## Records -/

section Fields

variable {σ α : Type} {name : String} {presence : Presence} {set : α → σ → σ}

/-- A field can be read from a value, wherever that stands. -/
def Field.Admits (f : Field σ) (w : Json) : Prop :=
  ∀ room s rest, value room s = .ok (w, rest) → ∃ update, f.read room s = .ok (update, rest)

theorem Yields.admits {read : Nat → Bytes → Except Fault (Got α)} {means : Json → α → Prop}
    {w : Json} {a : α} (h : Yields read means) (hmeans : means w a) :
    (deepField name presence read set).Admits w := by
  intro room s rest hvalue
  refine ⟨set a, ?_⟩
  change (read room s).map _ = _
  rw [h room s w rest a hvalue hmeans]
  rfl

end Fields

namespace Form

variable {σ : Type} {form : Form σ} {room fuel : Nat} {seen : List String} {v result : σ}
  {s rest : Bytes} {w : Json}

/-- An object that no field is missing in, or a list of so few items only that it may be. -/
inductive Shaped (form : Form σ) : Json → Prop
  | object {ms : List (String × Json)}
      (h : ∀ f ∈ form.fields, f.presence = .never → f.name ∈ names ms) : Shaped form (.object ms)
  | list {ws : List Json} (hlength : ws.length ≤ form.fields.length)
      (hleft : ∀ f ∈ form.fields.drop ws.length, f.presence = .always) : Shaped form (.array ws)

theorem missing?_eq_none_iff :
    form.missing? seen = none ↔ ∀ f ∈ form.fields, f.presence = .never → f.name ∈ seen := by
  simp only [missing?, Option.map_eq_none_iff, List.find?_eq_none, Bool.and_eq_true,
    decide_eq_true_eq, Bool.not_eq_true', not_and, Bool.not_eq_false, List.contains_iff_mem]

theorem Gathers.complete {ms : List (String × Json)} (h : form.Gathers seen v ms result) :
    ∀ f ∈ form.fields, f.presence = .never → f.name ∈ seen ∨ f.name ∈ names ms := by
  induction h with
  | done hmissing =>
    exact fun f hf hnever => .inl (missing?_eq_none_iff.mp hmissing f hf hnever)
  | field hfield hnew hread hmore ih =>
    intro f hf hnever
    rcases ih f hf hnever with hseen | hname
    · rcases List.mem_cons.mp hseen with rfl | hseen
      · exact .inr List.mem_cons_self
      · exact .inl hseen
    · exact .inr (List.mem_cons_of_mem _ hname)
  | other hfield hmore ih =>
    exact fun f hf hnever => (ih f hf hnever).imp_right (List.mem_cons_of_mem _)

theorem Lists.complete {fields : List (Field σ)} {ws : List Json} (h : Lists fields v ws result) :
    ws.length ≤ fields.length ∧ ∀ f ∈ fields.drop ws.length, f.presence = .always := by
  induction h with
  | done hleft => exact ⟨Nat.zero_le _, hleft⟩
  | item hread hmore ih => exact ⟨Nat.succ_le_succ ih.1, ih.2⟩

/-- What a record is read from has its shape. -/
theorem Records.shaped (h : form.Records w result) : form.Shaped w := by
  cases h with
  | object hgathers =>
    exact .object fun f hf hnever =>
      (hgathers.complete f hf hnever).resolve_left List.not_mem_nil
  | list hlists => exact .list hlists.complete.1 hlists.complete.2

/-! ## Records that are never refused -/

/-- The members that are left can all be read into fields, after some names were seen. -/
structure Gatherable (form : Form σ) (seen : List String) (ms : List (String × Json)) : Prop where
  admits : ∀ m ∈ ms, ∀ f, form.field? m.1 = some f → f.Admits m.2
  once : ∀ f ∈ form.fields, seen.count f.name + (names ms).count f.name ≤ 1
  complete : ∀ f ∈ form.fields, f.presence = .never → f.name ∈ seen ∨ f.name ∈ names ms

theorem Gatherable.other {name : String} {ms : List (String × Json)}
    (h : form.Gatherable seen ((name, w) :: ms)) (hfield : form.field? name = none) :
    form.Gatherable seen ms := by
  have hother : ∀ f ∈ form.fields, f.name ≠ name := by
    rintro f hf rfl
    exact List.find?_eq_none.mp hfield f hf (decide_eq_true rfl)
  refine ⟨fun m hm => h.admits m (List.mem_cons_of_mem _ hm), fun f hf => ?_,
    fun f hf hnever => ?_⟩
  · have hcount := h.once f hf
    rwa [names, List.map_cons, List.count_cons_of_ne (Ne.symm (hother f hf))] at hcount
  · refine (h.complete f hf hnever).imp_right fun hmem => ?_
    exact (List.mem_cons.mp hmem).resolve_left (hother f hf)

theorem Gatherable.field {f : Field σ} {ms : List (String × Json)}
    (h : form.Gatherable seen ((f.name, w) :: ms)) (hf : f ∈ form.fields) :
    seen.contains f.name = false ∧ form.Gatherable (f.name :: seen) ms := by
  constructor
  · have hcount := h.once f hf
    rw [names, List.map_cons, List.count_cons_self] at hcount
    rw [Bool.eq_false_iff, Ne, List.contains_iff_mem, ← List.count_pos_iff]
    omega
  refine ⟨fun m hm => h.admits m (List.mem_cons_of_mem _ hm), fun g hg => ?_,
    fun g hg hnever => ?_⟩
  · have hcount := h.once g hg
    rw [names, List.map_cons, ← names] at hcount
    by_cases hname : f.name = g.name
    · rw [hname, List.count_cons_self] at hcount ⊢
      omega
    · rwa [List.count_cons_of_ne hname] at hcount ⊢
  · rcases h.complete g hg hnever with hseen | hname
    · exact .inl (List.mem_cons_of_mem _ hseen)
    · rcases List.mem_cons.mp hname with heq | hname
      · exact .inl (List.mem_cons.mpr (.inl heq))
      · exact .inr hname

theorem exists_members {first : Bool} {ms : List (String × Json)} (hopen : form.closed = none)
    (hcheck : ∀ v, form.check v = none) (h : form.Gatherable seen ms)
    (hvalues : Reader.members (value room) fuel first s = .ok (ms, rest)) :
    ∃ result, form.members room fuel first seen v s = .ok (result, rest) := by
  -- Both readers spend their fuel member by member, so one induction goes along with both.
  induction fuel generalizing first seen v s ms with
  | zero => cases hvalues
  | succ fuel ih =>
    obtain ⟨⟨name?, r⟩, hname, hvalues⟩ := ok_of_bind hvalues
    rw [members, hname]
    cases name? with
    | none =>
      cases hvalues
      have hmissing : form.missing? seen = none := missing?_eq_none_iff.mpr fun f hf hnever =>
        (h.complete f hf hnever).resolve_right List.not_mem_nil
      refine ⟨v, ?_⟩
      simp only [bind, Except.bind, hmissing, hcheck]
    | some name =>
      obtain ⟨t, hcolon, hvalues⟩ := ok_of_bind hvalues
      obtain ⟨⟨w, t'⟩, hw, hvalues⟩ := ok_of_bind hvalues
      obtain ⟨⟨more, t''⟩, hmore, hvalues⟩ := ok_of_bind hvalues
      cases hvalues
      cases hfield : form.field? name with
      | none =>
        obtain ⟨result, hresult⟩ := ih (v := v) (h.other hfield) hmore
        refine ⟨result, ?_⟩
        simp only [bind, Except.bind, hfield, hopen, hcolon, skip_of_value hw, hresult]
      | some f =>
        obtain ⟨hmem, rfl⟩ := mem_of_field? hfield
        obtain ⟨hnew, hlater⟩ := h.field hmem
        obtain ⟨update, hread⟩ := h.admits _ List.mem_cons_self f hfield room t t' hw
        obtain ⟨result, hresult⟩ := ih (v := update v) hlater hmore
        refine ⟨result, ?_⟩
        simp only [bind, Except.bind, hfield, hnew, hcolon, hread, hresult, Bool.false_eq_true,
          if_false]

theorem endOfItems_of_closed (hs : skipBlanks s = closeList :: rest) :
    endOfItems s = .ok rest := by
  rw [endOfItems, hs]
  exact if_pos rfl

theorem exists_items {fields : List (Field σ)} {index : Nat} {ws : List Json}
    (hcheck : ∀ v, form.check v = none)
    (hvalues : listItems (value room) fuel (index == 0) s = .ok (ws, rest))
    (hlength : ws.length ≤ fields.length)
    (hleft : ∀ f ∈ fields.drop ws.length, f.presence = .always)
    (hadmits : ∀ (i : Nat) (f : Field σ) (u : Json),
      fields[i]? = some f → ws[i]? = some u → f.Admits u) :
    ∃ result t, form.items room fields index v s = .ok (result, t) ∧ endOfItems t = .ok rest := by
  induction fields generalizing index v s fuel ws with
  | nil =>
    obtain rfl := List.eq_nil_of_length_eq_zero (Nat.le_zero.mp hlength)
    obtain ⟨hnext, rfl⟩ := of_listItems_nil hvalues
    obtain ⟨r, hs⟩ := nextItem_eq_none.mp hnext
    refine ⟨v, s, ?_, ?_⟩
    · rw [items, hcheck]
    · rw [hs]
      exact endOfItems_of_closed hs
  | cons f fields ih =>
    cases ws with
    | nil =>
      obtain ⟨hnext, rfl⟩ := of_listItems_nil hvalues
      obtain ⟨hpresence, hleft⟩ := List.forall_mem_cons.mp hleft
      -- A field that is left out takes nothing, so the next one is asked for at the same place.
      have hclosed := nextItem_eq_none.mp hnext
      have hvalues : listItems (value room) fuel (index + 1 == 0) s =
          .ok ([], (skipBlanks s).tail) := listItems_of_end (nextItem_eq_none.mpr hclosed)
      obtain ⟨result, t, hitems, hend⟩ :=
        ih (v := v) hvalues (Nat.zero_le _) hleft fun _ _ _ _ hnone => by cases hnone
      refine ⟨result, t, ?_, hend⟩
      rw [items, hnext]
      simp only [bind, Except.bind, hpresence, if_true, hitems]
    | cons w ws =>
      obtain ⟨n, r, t, rfl, hnext, hvalue, hmore⟩ := listItems_eq_cons_iff.mp hvalues
      obtain ⟨update, hread⟩ := hadmits 0 f w rfl rfl room r t hvalue
      have hmore : listItems (value room) n (index + 1 == 0) t = .ok (ws, rest) := hmore
      obtain ⟨result, t', hitems, hend⟩ := ih (v := update v) hmore
        (Nat.le_of_succ_le_succ hlength) hleft fun i f u hf hu => hadmits (i + 1) f u hf hu
      refine ⟨result, t', ?_, hend⟩
      rw [items, hnext]
      simp only [bind, Except.bind, hread, hitems]

/-- At most one value is given for a field in its place, one that the field can be read from. -/
def GivenOnce (w : Json) (f : Field σ) (i : Nat) : Prop :=
  given f.name i w = [] ∨ ∃ u, given f.name i w = [u] ∧ f.Admits u

theorem GivenOnce.length_le {f : Field σ} {i : Nat} (h : GivenOnce w f i) :
    (given f.name i w).length ≤ 1 := by
  rcases h with hnone | ⟨u, hone, -⟩
  · rw [hnone]
    exact Nat.zero_le 1
  · rw [hone]
    exact Nat.le_refl 1

theorem GivenOnce.admits {f : Field σ} {i : Nat} {u : Json} (h : GivenOnce w f i)
    (hu : u ∈ given f.name i w) : f.Admits u := by
  rcases h with hnone | ⟨u', hone, hadmits⟩
  · rw [hnone] at hu
    cases hu
  · rw [hone] at hu
    rwa [List.mem_singleton.mp hu]

/-- All that is asked of a value for a record to be read from it. -/
structure Fits (form : Form σ) (w : Json) : Prop where
  shaped : form.Shaped w
  once : ∀ p ∈ form.fields.zipIdx, GivenOnce w p.1 p.2

theorem Fits.givenOnce (h : form.Fits w) {f : Field σ} {i : Nat}
    (hf : form.fields[i]? = some f) : GivenOnce w f i :=
  h.once (f, i) (List.mem_zipIdx_iff_getElem?.mpr hf)

theorem Fits.gatherable {ms : List (String × Json)} (h : form.Fits (.object ms)) :
    form.Gatherable [] ms := by
  refine ⟨?_, ?_, ?_⟩
  · rintro ⟨name, u⟩ hm f hfield
    obtain ⟨hmem, rfl⟩ := mem_of_field? hfield
    obtain ⟨i, hi⟩ := List.mem_iff_getElem?.mp hmem
    exact (h.givenOnce hi).admits (mem_given i hm)
  · intro f hf
    obtain ⟨i, hi⟩ := List.mem_iff_getElem?.mp hf
    have hlength := (h.givenOnce hi).length_le
    rw [length_given] at hlength
    rwa [List.count_nil, Nat.zero_add]
  · intro f hf hnever
    cases h.shaped with
    | object hneeded => exact .inr (hneeded f hf hnever)

theorem exists_read (hopen : form.closed = none) (hcheck : ∀ v, form.check v = none)
    (h : form.Fits w) (hvalue : value room s = .ok (w, rest)) :
    ∃ result, form.read room s = .ok (result, rest) := by
  cases h.shaped with
  | object =>
    obtain ⟨depth, r, rfl, hs, hmembers⟩ := origin_of_value hvalue
    have hne : openObject ≠ openList := by decide
    obtain ⟨result, hresult⟩ := exists_members (v := form.blank) hopen hcheck h.gatherable hmembers
    refine ⟨result, ?_⟩
    rw [Form.read, hs]
    dsimp only
    rw [if_neg hne, if_pos rfl]
    exact hresult
  | @list ws hlength hleft =>
    obtain ⟨depth, r, rfl, hs, hitems⟩ := origin_of_value hvalue
    rw [items_eq] at hitems
    have hvalues : listItems (value depth) r.length (0 == 0) r = .ok (ws, rest) := hitems
    obtain ⟨result, t, hresult, hend⟩ := exists_items (v := form.blank) hcheck hvalues hlength hleft
      fun i f u hf hu => (h.givenOnce hf).admits (Option.mem_toList.mpr hu)
    refine ⟨result, ?_⟩
    rw [Form.read, hs]
    dsimp only
    rw [if_pos rfl]
    simp only [bind, Except.bind, hresult, hend]

/-- **What cannot be refused is read as what it means**, where it can only mean one thing: some
record is read, it means what all records of this value do, and so it is the one. -/
theorem readsAs {means : Json → σ → Prop} (hform : form.EndsAlike) (hopen : form.closed = none)
    (hcheck : ∀ v, form.check v = none) (hrecords : ∀ w a, form.Records w a → means w a)
    (hfits : ∀ w a, means w a → form.Fits w)
    (hunique : ∀ w a b, means w a → means w b → a = b) : ReadsAs form.read means where
  accords := (accords_read hform).mono hrecords
  yields := by
    intro room s w rest a hvalue hmeans
    obtain ⟨result, hread⟩ := exists_read hopen hcheck (hfits w a hmeans) hvalue
    obtain ⟨-, hrecord⟩ := accords_read hform room s _ _ _ _ hread hvalue
    rw [hread, hunique w a result hmeans (hrecords w result hrecord)]
  unique := hunique

/-! ## What is asked of a value, field by field -/

/-- An object, or a list of at least and at most so many items. -/
def ObjectOrList (least most : Nat) : Json → Prop
  | .object _ => True
  | .array ws => least ≤ ws.length ∧ ws.length ≤ most
  | _ => False

/-- Where any field may be left out all objects are right, and lists of any length so far. -/
theorem shaped_iff_of_always (h : ∀ f ∈ form.fields, f.presence = .always) :
    form.Shaped w ↔ ObjectOrList 0 form.fields.length w := by
  constructor
  · intro hw
    cases hw with
    | object => exact trivial
    | list hlength => exact ⟨Nat.zero_le _, hlength⟩
  · intro hw
    cases w with
    | object ms =>
      refine .object fun f hf hnever => ?_
      rw [h f hf] at hnever
      cases hnever
    | array ws => exact .list hw.2 fun f hf => h f (List.mem_of_mem_drop hf)
    | _ => exact hw.elim

theorem given_object_ne_nil_iff {name : String} {i : Nat} {ms : List (String × Json)} :
    given name i (.object ms) ≠ [] ↔ name ∈ names ms := by
  rw [← List.length_pos_iff, length_given, List.count_pos_iff]

/-- Where no field may be left out of a list it has an item for each, and an object has all that
must be there. -/
theorem shaped_iff_of_not_always (h : ∀ f ∈ form.fields, f.presence ≠ .always) :
    form.Shaped w ↔ ObjectOrList form.fields.length form.fields.length w ∧
      ∀ p ∈ form.fields.zipIdx, p.1.presence = .never → given p.1.name p.2 w ≠ [] := by
  constructor
  · intro hw
    cases hw with
    | object hneeded =>
      refine ⟨trivial, fun p hp hnever => given_object_ne_nil_iff.mpr (hneeded p.1 ?_ hnever)⟩
      exact List.fst_mem_of_mem_zipIdx hp
    | @list ws hlength hleft =>
      have hall : form.fields.length ≤ ws.length := by
        refine List.drop_eq_nil_iff.mp (List.eq_nil_iff_forall_not_mem.mpr fun f hf => ?_)
        exact h f (List.mem_of_mem_drop hf) (hleft f hf)
      refine ⟨⟨hall, hlength⟩, fun p hp _ => ?_⟩
      obtain ⟨hi, -⟩ := List.getElem?_eq_some_iff.mp (List.mem_zipIdx_iff_getElem?.mp hp)
      rw [given, List.getElem?_eq_getElem (hi.trans_le hall)]
      exact List.cons_ne_nil _ _
  · rintro ⟨hw, hneeded⟩
    cases w with
    | object ms =>
      refine .object fun f hf hnever => ?_
      obtain ⟨i, hi⟩ := List.mem_iff_getElem?.mp hf
      exact given_object_ne_nil_iff.mp (hneeded (f, i) (List.mem_zipIdx_iff_getElem?.mpr hi) hnever)
    | array ws =>
      refine .list hw.2 fun f hf => ?_
      rw [List.drop_eq_nil_iff.mpr hw.1] at hf
      cases hf
    | _ => exact hw.elim

/-- Where fields may be left out of an object alone, a list has an item for each. -/
theorem shaped_iff_of_inList (h : ∀ f ∈ form.fields, f.presence = .inList) :
    form.Shaped w ↔ ObjectOrList form.fields.length form.fields.length w := by
  rw [shaped_iff_of_not_always fun f hf => by rw [h f hf]; exact nofun]
  refine and_iff_left fun p hp hnever => ?_
  rw [h p.1 (List.fst_mem_of_mem_zipIdx hp)] at hnever
  cases hnever

section Determines

variable {α : Type} {name : String} {i : Nat} {gs : List Json} {means : Json → α → Prop}
  {read : Nat → Bytes → Except Fault (Got α)} {presence : Presence} {default a b : α}

/-- Nothing is given, and there is the default; or one value is, and it means what there is. -/
def Determines (gs : List Json) (means : Json → α → Prop) (default a : α) : Prop :=
  gs = [] ∧ a = default ∨ ∃ u, gs = [u] ∧ means u a

theorem Determines.unique (ha : Determines gs means default a) (hreads : ReadsAs read means)
    (hb : Determines gs means default b) : a = b := by
  rcases ha with ⟨rfl, rfl⟩ | ⟨u, rfl, ha⟩
  · rcases hb with ⟨-, rfl⟩ | ⟨u, hu, -⟩
    · rfl
    · cases hu
  · rcases hb with ⟨hu, -⟩ | ⟨u', hu, hb⟩
    · cases hu
    · cases hu
      exact hreads.unique u a b ha hb

theorem Determines.givenOnce {set : α → σ → σ} (h : Determines (given name i w) means default a)
    (hreads : ReadsAs read means) : GivenOnce w (deepField name presence read set) i :=
  h.imp And.left fun ⟨u, hu, hmeans⟩ => ⟨u, hu, hreads.yields.admits hmeans⟩

/-- **A record of one field is what the field is.** -/
theorem readsAs_of_single {form : Form α}
    (hfields : form.fields = [deepField name presence read fun a _ => a])
    (hopen : form.closed = none) (hcheck : ∀ a, form.check a = none) (hreads : ReadsAs read means) :
    ReadsAs form.read fun w a =>
      form.Shaped w ∧ Determines (given name 0 w) means form.blank a := by
  have hsettles : form.Settles name 0 id means :=
    settles_of_fields [] hfields (hreads.accords.mono fun w a h v => h) fun g hg => by cases hg
  refine readsAs (fun f hf => ?_) hopen hcheck
    (fun w a h => ⟨h.shaped, h.settled_part hsettles⟩) (fun w a h => ⟨h.1, ?_⟩)
    fun w a b ha hb => ha.2.unique hreads hb.2
  · rw [hfields, List.mem_singleton] at hf
    rw [hf]
    exact hreads.accords.endsAlike
  · rw [hfields]
    exact List.forall_mem_singleton.mpr (h.2.givenOnce hreads)

end Determines

end Form

end IdentityTokens.Json
