import IdentityTokens.Json.Quotation

/-! Reading JSON values. A value is read whole, read as a given type, or passed
over; all three agree on where it ends. -/
namespace IdentityTokens.Json

namespace Reader

def isBlank (b : UInt8) : Bool :=
  b == ' '.toUInt8 || b == '\n'.toUInt8 || b == '\t'.toUInt8 || b == '\r'.toUInt8

def skipBlanks (s : Bytes) : Bytes := s.dropWhile isBlank

def comma : UInt8 := ','.toUInt8
def colon : UInt8 := ':'.toUInt8
def minus : UInt8 := '-'.toUInt8
def openList : UInt8 := '['.toUInt8
def closeList : UInt8 := ']'.toUInt8
def openObject : UInt8 := '\x7b'.toUInt8
def closeObject : UInt8 := '\x7d'.toUInt8

/-- How many containers may enclose a value. -/
def maxDepth : Nat := 127

/-- The letters of a literal after its first. -/
def letters : List Char → Bytes → Except Fault Bytes
  | [], rest => .ok rest
  | _ :: _, [] => .error (here .endOfValue [])
  | c :: cs, b :: rest =>
    if b = c.toUInt8 then letters cs rest else .error (here .expectedIdent rest)

/-- The further items of a list, up to its end. -/
def moreItems {α : Type} (item : Bytes → Except Fault (Got α)) :
    Nat → Bytes → Except Fault (Got (List α))
  | 0, s => .error (ahead .endOfList s)
  | fuel + 1, s =>
    match skipBlanks s with
    | [] => .error (ahead .endOfList [])
    | b :: rest =>
      if b = closeList then .ok ([], rest)
      else if b = comma then
        match skipBlanks rest with
        | [] => .error (ahead .endOfValue [])
        | c :: rest =>
          if c = closeList then .error (ahead .trailingComma (c :: rest))
          else do
            let (x, rest) ← item (c :: rest)
            let (xs, rest) ← moreItems item fuel rest
            .ok (x :: xs, rest)
      else .error (ahead .expectedListCommaOrEnd (b :: rest))

/-- The items of a list whose opening bracket has been taken. -/
def items {α : Type} (item : Bytes → Except Fault (Got α)) (s : Bytes) :
    Except Fault (Got (List α)) :=
  match skipBlanks s with
  | [] => .error (ahead .endOfList [])
  | b :: rest =>
    if b = closeList then .ok ([], rest)
    else do
      let (x, rest) ← item (b :: rest)
      let (xs, rest) ← moreItems item s.length rest
      .ok (x :: xs, rest)

/-- The colon between a name and its value. -/
def colonThen (s : Bytes) : Except Fault Bytes :=
  match skipBlanks s with
  | [] => .error (ahead .endOfObject [])
  | b :: rest => if b = colon then .ok rest else .error (ahead .expectedColon (b :: rest))

/-- The name that a member starts with, if the object has not ended. -/
def nextName (first : Bool) (s : Bytes) : Except Fault (Got (Option String)) :=
  match skipBlanks s with
  | [] => .error (ahead .endOfObject [])
  | b :: rest =>
    if b = closeObject then .ok (none, rest)
    else if first then
      if b = Quotation.quote then do
        let (name, rest) ← Quotation.read rest
        .ok (some name, rest)
      else .error (ahead .keyMustBeText (b :: rest))
    else if b = comma then
      match skipBlanks rest with
      | [] => .error (ahead .endOfValue [])
      | c :: rest =>
        if c = Quotation.quote then do
          let (name, rest) ← Quotation.read rest
          .ok (some name, rest)
        else if c = closeObject then .error (ahead .trailingComma (c :: rest))
        else .error (ahead .keyMustBeText (c :: rest))
    else .error (ahead .expectedObjectCommaOrEnd (b :: rest))

/-- The members of an object, up to its end. The fuel bounds their number. -/
def members {α : Type} (item : Bytes → Except Fault (Got α)) :
    Nat → Bool → Bytes → Except Fault (Got (List (String × α)))
  | 0, _, s => .error (ahead .endOfObject s)
  | fuel + 1, first, s => do
    match ← nextName first s with
    | (none, rest) => .ok ([], rest)
    | (some name, rest) =>
      let rest ← colonThen rest
      let (v, rest) ← item rest
      let (more, rest) ← members item fuel false rest
      .ok ((name, v) :: more, rest)

/-- The value of a literal by its first letter. -/
def literal? (b : UInt8) : Option (List Char × Json) :=
  if b = 'n'.toUInt8 then some (['u', 'l', 'l'], .null)
  else if b = 't'.toUInt8 then some (['r', 'u', 'e'], .bool true)
  else if b = 'f'.toUInt8 then some (['a', 'l', 's', 'e'], .bool false)
  else none

/-- Reads a value with repeated members kept. `room` is how many containers may
still be opened. -/
def value : Nat → Bytes → Except Fault (Got Json)
  | room, s =>
    match skipBlanks s with
    | [] => .error (ahead .endOfValue [])
    | b :: rest =>
      match literal? b with
      | some (cs, v) => (letters cs rest).map fun rest => (v, rest)
      | none =>
        if b = Quotation.quote then
          (Quotation.read rest).map fun (s, rest) => (.text s, rest)
        else if b = minus then
          (Number.read true rest).map fun (n, rest) => (n.toJson, rest)
        else if isDigit b then
          (Number.read false (b :: rest)).map fun (n, rest) => (n.toJson, rest)
        else if b = openList then
          match room with
          | 0 => .error (ahead .tooDeep (b :: rest))
          | room + 1 => (items (value room) rest).map fun (xs, rest) => (.array xs, rest)
        else if b = openObject then
          match room with
          | 0 => .error (ahead .tooDeep (b :: rest))
          | room + 1 =>
            (members (value room) (rest.length + 1) true rest).map fun (ms, rest) =>
              (.object ms, rest)
        else .error (ahead .expectedValue (b :: rest))

/-- What is wrong with a value of another type than expected. -/
def wrongType (expected : String) (s : Bytes) : Fault :=
  match skipBlanks s with
  | [] => ahead .endOfValue []
  | b :: rest =>
    let done {α : Type} (found : α → Found) : Except Fault (Got α) → Fault
      | .ok (v, rest) => here (.wrongType (found v) expected) rest
      | .error f => f
    match literal? b with
    | some (cs, .bool v) => done (fun _ => .bool v) ((letters cs rest).map fun r => ((), r))
    | some (cs, _) => done (fun _ => .null) ((letters cs rest).map fun r => ((), r))
    | none =>
      if b = Quotation.quote then done .text (Quotation.read rest)
      else if b = minus then done Number.found (Number.read true rest)
      else if isDigit b then done Number.found (Number.read false (b :: rest))
      else if b = openList then here (.wrongType .sequence expected) (b :: rest)
      else if b = openObject then here (.wrongType .map expected) (b :: rest)
      else ahead .expectedValue (b :: rest)

def text (s : Bytes) : Except Fault (Got String) :=
  match skipBlanks s with
  | [] => .error (ahead .endOfValue [])
  | b :: rest =>
    if b = Quotation.quote then Quotation.read rest
    else .error (wrongType "a string" (b :: rest))

def boolean (s : Bytes) : Except Fault (Got Bool) :=
  match skipBlanks s with
  | [] => .error (ahead .endOfValue [])
  | b :: rest =>
    match literal? b with
    | some (cs, .bool v) => (letters cs rest).map fun rest => (v, rest)
    | _ => .error (wrongType "a boolean" (b :: rest))

/-- A kind of integer with its bounds. -/
structure IntegerKind where
  name : String
  low : Int
  high : Int

def IntegerKind.check (kind : IntegerKind) :
    Got Number → Except Fault (Got Int)
  | (.whole n, rest) =>
    if kind.low ≤ n.value ∧ n.value ≤ kind.high then .ok (n.value, rest)
    else .error (here (.wrongValue (.integer n.value) kind.name) rest)
  | (.double d, rest) => .error (here (.wrongType (.double d) kind.name) rest)

def integer (kind : IntegerKind) (s : Bytes) : Except Fault (Got Int) :=
  match skipBlanks s with
  | [] => .error (ahead .endOfValue [])
  | b :: rest =>
    if b = minus then (Number.read true rest).bind kind.check
    else if isDigit b then (Number.read false (b :: rest)).bind kind.check
    else .error (wrongType kind.name (b :: rest))

def signed64 : IntegerKind := ⟨"i64", Int64.minValue.toInt, Int64.maxValue.toInt⟩
def unsigned64 : IntegerKind := ⟨"u64", 0, UInt64.size - 1⟩
def unsigned32 : IntegerKind := ⟨"u32", 0, UInt32.size - 1⟩

def time (s : Bytes) : Except Fault (Got Int64) :=
  (integer signed64 s).map fun (n, rest) => (Int64.ofInt n, rest)

/-- Null, or a value. -/
def optional {α : Type} (item : Bytes → Except Fault (Got α)) (s : Bytes) :
    Except Fault (Got (Option α)) :=
  match skipBlanks s with
  | [] => (item []).map fun (v, rest) => (some v, rest)
  | b :: rest =>
    if b = 'n'.toUInt8 then
      (letters ['u', 'l', 'l'] rest).map fun rest => (none, rest)
    else (item (b :: rest)).map fun (v, rest) => (some v, rest)

def list {α : Type} (room : Nat) (item : Nat → Bytes → Except Fault (Got α)) (s : Bytes) :
    Except Fault (Got (List α)) :=
  match skipBlanks s with
  | [] => .error (ahead .endOfValue [])
  | b :: rest =>
    if b = openList then
      match room with
      | 0 => .error (ahead .tooDeep (b :: rest))
      | room + 1 => items (item room) rest
    else .error (wrongType "a sequence" (b :: rest))

/-- An object of values of one type, repeated members kept. -/
def map {α : Type} (room : Nat) (item : Nat → Bytes → Except Fault (Got α)) (s : Bytes) :
    Except Fault (Got (List (String × α))) :=
  match skipBlanks s with
  | [] => .error (ahead .endOfValue [])
  | b :: rest =>
    if b = openObject then
      match room with
      | 0 => .error (ahead .tooDeep (b :: rest))
      | room + 1 => members (item room) (rest.length + 1) true rest
    else .error (wrongType "a map" (b :: rest))

/-- Reads a whole document: a value, and blanks alone behind it. -/
def document {α : Type} (item : Bytes → Except Fault (Got α)) (s : Bytes) :
    Except Error α :=
  match item s with
  | .error f => .error (f.locate s)
  | .ok (v, rest) =>
    match skipBlanks rest with
    | [] => .ok v
    | b :: rest => .error ((ahead .trailingCharacters (b :: rest)).locate s)

end Reader

open Reader

/-- A whole document with repeated members kept. -/
def readRaw (s : Bytes) : Except Error Json := document (value maxDepth) s

def read (s : Bytes) : Except Error Json := (readRaw s).map settled

/-- A document that is an object. -/
def readObject (s : Bytes) : Except Error (List (String × Json)) :=
  (document (map maxDepth value) s).map fun ms => settleMembers (settledMembers ms)

end IdentityTokens.Json
