import IdentityTokens.Json.Skip

/-! Records read from JSON: an object with known members, or a list of the same
values in the order of the fields. Other members are passed over, a repeated
known one is refused, and an absent one keeps its default where it has one. -/
namespace IdentityTokens.Json

/-- Where a field may be left out. -/
inductive Presence where
  | always
  | inList
  | never
deriving DecidableEq

/-- A field that is `.always` may be left out in both shapes, `.inList` must be there in a list,
`.never` must be there. -/
structure Field (σ : Type) where
  name : String
  presence : Presence
  read : Nat → Bytes → Except Fault (Got (σ → σ))

structure Form (σ : Type) where
  title : String
  fields : List (Field σ)
  blank : σ
  /-- The text that lists the fields, if other members are refused. -/
  closed : Option String := none
  /-- How a list of another length is told what is expected. -/
  lengthText : String :=
    let n := fields.length
    s!"{title} with {n} element" ++ (if n = 1 then "" else "s")
  /-- What may still be wrong when all fields are read. -/
  check : σ → Option Cause := fun _ => none

namespace Form

variable {σ : Type}

def field? (form : Form σ) (name : String) : Option (Field σ) :=
  form.fields.find? (·.name = name)

/-- A fault of the record as a whole is placed where the object would end. -/
def atClose (close : UInt8) (cause : Cause) (s : Bytes) : Fault :=
  match Reader.skipBlanks s with
  | [] => here cause []
  | b :: rest => here cause (if b = close then rest else b :: rest)

def inObject (cause : Cause) (s : Bytes) : Fault := atClose Reader.closeObject cause s

/-- In a list, a comma before the next item is passed too. -/
def inList (cause : Cause) (s : Bytes) : Fault :=
  match Reader.skipBlanks s with
  | [] => here cause []
  | b :: rest =>
    here cause <|
      if b = Reader.closeList then rest
      else if b = Reader.comma then Reader.skipBlanks rest
      else b :: rest

def missing? (form : Form σ) (seen : List String) : Option String :=
  (form.fields.find? fun f => f.presence = .never && !seen.contains f.name).map (·.name)

/-- The members up to the end of the object. -/
def members (form : Form σ) (room : Nat) :
    Nat → Bool → List String → σ → Bytes → Except Fault (Got σ)
  | 0, _, _, _, s => .error (ahead .endOfObject s)
  | fuel + 1, first, seen, v, s => do
    match ← Reader.nextName first s with
    | (none, rest) =>
      match form.missing? seen with
      | some name => .error (here (.missingField name) rest)
      | none =>
        match form.check v with
        | none => .ok (v, rest)
        | some cause => .error (here cause rest)
    | (some name, rest) =>
      match form.field? name with
      | none =>
        match form.closed with
        | some known => .error (inObject (.unknownField name known) rest)
        | none =>
          let rest ← Reader.colonThen rest
          let rest ← Skip.value rest
          members form room fuel false seen v rest
      | some f =>
        if seen.contains name then .error (inObject (.duplicateField name) rest)
        else
          let rest ← Reader.colonThen rest
          let (update, rest) ← f.read room rest
          members form room fuel false (name :: seen) (update v) rest

/-- The next item of a list, if there is one. -/
def nextItem (first : Bool) (s : Bytes) : Except Fault (Option Bytes) :=
  match Reader.skipBlanks s with
  | [] => .error (ahead .endOfList [])
  | b :: rest =>
    if b = Reader.closeList then .ok none
    else if first then .ok (some (b :: rest))
    else if b = Reader.comma then
      match Reader.skipBlanks rest with
      | [] => .error (ahead .endOfValue [])
      | c :: rest =>
        if c = Reader.closeList then .error (ahead .trailingComma (c :: rest))
        else .ok (some (c :: rest))
    else .error (ahead .expectedListCommaOrEnd (b :: rest))

/-- The items of the fields that are left, from the one at `index`. -/
def items (form : Form σ) (room : Nat) :
    List (Field σ) → Nat → σ → Bytes → Except Fault (Got σ)
  | [], _, v, s =>
    match form.check v with
    | none => .ok (v, s)
    | some cause => .error (inList cause s)
  | f :: fields, index, v, s => do
    match ← nextItem (index == 0) s with
    | none =>
      if f.presence = .always then items form room fields (index + 1) v s
      else .error (inList (.wrongLength index form.lengthText) s)
    | some rest =>
      let (update, rest) ← f.read room rest
      items form room fields (index + 1) (update v) rest

/-- The end of a list whose fields are all read. -/
def endOfItems (s : Bytes) : Except Fault Bytes :=
  match Reader.skipBlanks s with
  | [] => .error (ahead .endOfList [])
  | b :: rest =>
    if b = Reader.closeList then .ok rest
    else if b = Reader.comma then
      let rest := Reader.skipBlanks rest
      if goesOn (· == Reader.closeList) rest then .error (ahead .trailingComma rest)
      else .error (ahead .trailingCharacters rest)
    else .error (ahead .trailingCharacters (b :: rest))

def read (form : Form σ) (room : Nat) (s : Bytes) : Except Fault (Got σ) :=
  match Reader.skipBlanks s with
  | [] => .error (ahead .endOfValue [])
  | b :: rest =>
    if b = Reader.openList then
      match room with
      | 0 => .error (ahead .tooDeep (b :: rest))
      | room + 1 => do
        let (v, rest) ← form.items room form.fields 0 form.blank rest
        let rest ← endOfItems rest
        .ok (v, rest)
    else if b = Reader.openObject then
      match room with
      | 0 => .error (ahead .tooDeep (b :: rest))
      | room + 1 => form.members room (rest.length + 1) true [] form.blank rest
    else .error (Reader.wrongType form.title (b :: rest))

/-- Reads a whole document as a record. -/
def decode (form : Form σ) (s : Bytes) : Except Error σ :=
  Reader.document (form.read Reader.maxDepth) s

end Form

/-- A field that holds containers of its own. -/
def deepField {σ α : Type} (name : String) (presence : Presence)
    (read : Nat → Bytes → Except Fault (Got α)) (set : α → σ → σ) : Field σ :=
  ⟨name, presence, fun room s => (read room s).map fun (v, rest) => (set v, rest)⟩

/-- A field that is read in one way wherever it stands. -/
def field {σ α : Type} (name : String) (presence : Presence)
    (read : Bytes → Except Fault (Got α)) (set : α → σ → σ) : Field σ :=
  deepField name presence (fun _ => read) set

end IdentityTokens.Json
