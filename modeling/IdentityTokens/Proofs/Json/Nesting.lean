import IdentityTokens.Proofs.Json.Records

/-! # Values within the limit of nesting

A value is read as some value if it opens no more containers within each other than a reader has
room for: the numbers in it may come back rounded, and repeated names stay. -/
namespace IdentityTokens.Json

open Reader

/-- A value within `room` containers. The numbers in it are those that there are. -/
inductive Nests : Nat → Json → Prop where
  | null {room : Nat} : Nests room .null
  | bool {room : Nat} (b : Bool) : Nests room (.bool b)
  | whole {room : Nat} (n : Whole) : Nests room (.whole n)
  | double {room : Nat} {x : Double} (hx : x.InRange) : Nests room (.double x)
  | text {room : Nat} (s : String) : Nests room (.text s)
  | array {room : Nat} {items : List Json} (hitems : ∀ v ∈ items, Nests room v) :
      Nests (room + 1) (.array items)
  | object {room : Nat} {members : List (String × Json)} (hmembers : ∀ m ∈ members, Nests room m.2) :
      Nests (room + 1) (.object members)

theorem exists_reads_double {room : Nat} {x : Double} (hx : x.InRange) :
    ∃ w, Reads (value room) (.double x) w := by
  obtain ⟨y, hy⟩ := hx.exists_read x.negative
  refine ⟨.double y, fun rest hrest => ?_⟩
  have hread := hy rest hrest
  rcases written_double x with ⟨hsign, hw⟩ | ⟨hsign, hw⟩
  · rw [hsign] at hread
    rw [hw, List.cons_append, value_minus, hread]
    rfl
  · obtain ⟨b, r, hb, hdigit⟩ := x.valid_decimal.exists_digit
    rw [hsign, hb, List.cons_append] at hread
    rw [hw, hb, List.cons_append, value_digit hdigit, hread]
    rfl

theorem exists_reads_array {room : Nat} {items : List Json}
    (h : ∀ v ∈ items, ∃ w, Reads (value room) v w) :
    ∃ w, Reads (value (room + 1)) (.array items) w := by
  choose! get hget using h
  refine ⟨.array (items.map get), fun rest _ => ?_⟩
  cases items with
  | nil => rfl
  | cons v items =>
    have hreads : ReadsAs (value room) written get (v :: items) := hget
    rw [written_array_cons, List.cons_append, value_list, List.append_assoc,
      List.singleton_append, items_cons hreads fun w _ => begins w]
    rfl

/-- An object is read member by member. -/
theorem reads_object {room : Nat} {members : List (String × Json)} {get : Json → Json}
    (hget : ∀ m ∈ members, Reads (value room) m.2 (get m.2)) :
    Reads (value (room + 1)) (.object members)
      (.object (members.map fun m => (m.1, get m.2))) := by
  intro rest _
  cases members with
  | nil => rfl
  | cons m members =>
    have hreads : ReadsAs (value room) written get ((m :: members).map (·.2)) := by
      intro v hv
      obtain ⟨m, hm, rfl⟩ := List.mem_map.mp hv
      exact hget m hm
    rw [written_object_cons, List.cons_append, value_object, List.append_assoc,
      List.singleton_append, members_cons hreads ?_]
    · rfl
    · have hlength := length_le_flatMap members (member written)
      simp only [List.length_append, List.length_cons]
      omega

theorem exists_reads_members {room : Nat} {members : List (String × Json)}
    (h : ∀ m ∈ members, ∃ w, Reads (value room) m.2 w) :
    ∃ get : Json → Json, ∀ m ∈ members, Reads (value room) m.2 (get m.2) := by
  have hvalues : ∀ v ∈ members.map (·.2), ∃ w, Reads (value room) v w := by
    intro v hv
    obtain ⟨m, hm, rfl⟩ := List.mem_map.mp hv
    exact h m hm
  choose! get hget using hvalues
  exact ⟨get, fun m hm => hget m.2 (List.mem_map_of_mem hm)⟩

/-- **A value within the limit is read as some value.** -/
theorem Nests.exists_reads {room : Nat} {v : Json} (hv : v.Nests room) :
    ∃ w, Reads (value room) v w := by
  induction hv with
  | null => exact ⟨_, fun _ h => Fits.null.value_written h⟩
  | bool b => exact ⟨_, fun _ h => (Fits.bool b).value_written h⟩
  | whole n => exact ⟨_, fun _ h => (Fits.whole n).value_written h⟩
  | text s => exact ⟨_, fun _ h => (Fits.text s).value_written h⟩
  | double hx => exact exists_reads_double hx
  | array _ ih => exact exists_reads_array ih
  | object _ ih =>
    obtain ⟨get, hget⟩ := exists_reads_members ih
    exact ⟨_, reads_object hget⟩

/-- No value is read in two ways. -/
theorem Reads.unique {α : Type} {read : Bytes → Except Fault (Got α)} {w : Json} {a b : α}
    (ha : Reads read w a) (hb : Reads read w b) : a = b := by
  have h := (ha [] stops_nil).symm.trans (hb [] stops_nil)
  exact (Prod.mk.inj (Except.ok.inj h)).1

theorem Nests.exists_reads_object {room : Nat} {members : List (String × Json)}
    (h : (Json.object members).Nests room) :
    ∃ get : Json → Json, (∀ m ∈ members, Reads (value (room - 1)) m.2 (get m.2)) ∧
      Reads (value room) (.object members) (.object (members.map fun m => (m.1, get m.2))) := by
  cases h with
  | object hmembers =>
    obtain ⟨get, hget⟩ := exists_reads_members fun m hm => (hmembers m hm).exists_reads
    exact ⟨get, hget, reads_object hget⟩

/-- A document that is an object within the limit is read member by member. -/
theorem Nests.exists_readRaw {members : List (String × Json)}
    (h : (Json.object members).Nests maxDepth) :
    ∃ get : Json → Json, (∀ m ∈ members, Reads (value (maxDepth - 1)) m.2 (get m.2)) ∧
      readRaw (Text.bytes (Json.object members).compact) =
        .ok (.object (members.map fun m => (m.1, get m.2))) := by
  obtain ⟨get, hget, hobject⟩ := h.exists_reads_object
  refine ⟨get, hget, ?_⟩
  have hread := hobject [] stops_nil
  rw [List.append_nil] at hread
  rw [bytes_compact, readRaw, document, hread]
  rfl

/-- **An object within the limit is read as an object.** -/
theorem Nests.exists_readObject {members : List (String × Json)}
    (h : (Json.object members).Nests maxDepth) :
    ∃ ms, readObject (Text.bytes (Json.object members).compact) = .ok ms := by
  obtain ⟨get, -, hms⟩ := h.exists_reads_object
  have hmap := reads_map_of_value hms [] stops_nil
  rw [List.append_nil] at hmap
  exact ⟨_, by rw [bytes_compact, readObject, document, hmap]; rfl⟩

end IdentityTokens.Json
