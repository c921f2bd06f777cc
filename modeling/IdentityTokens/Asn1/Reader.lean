import IdentityTokens.Asn1.Fault

/-! Strict reading of distinguished encodings: definite lengths in as few bytes
as they need, naturals without idle zeros, nothing left over. -/
namespace IdentityTokens.Asn1

/-- What is left of a document, where that stands in it, and from where to where
the value that is being read extends. -/
structure Cursor where
  rest : Bytes
  offset : Nat
  start : Nat
  stop : Nat

namespace Cursor

def ofBytes (b : Bytes) : Cursor := ⟨b, 0, 0, b.length⟩

def remaining (c : Cursor) : Nat := c.stop - c.offset

def position (c : Cursor) : Nat := c.offset - c.start

def fault (c : Cursor) (cause : Cause) : Fault := ⟨cause, none, c.offset⟩

def faultAt (c : Cursor) (cause : Cause) (place : Nat) : Fault := ⟨cause, some place, c.offset⟩

end Cursor

abbrev Got (α : Type) := α × Cursor

def take (n : Nat) (c : Cursor) : Except Fault (Got Bytes) :=
  if n ≤ c.remaining then
    .ok (c.rest.take n, { c with rest := c.rest.drop n, offset := c.offset + n })
  else .error (c.faultAt (.incomplete (c.offset + n) c.stop) c.offset)

def byte (c : Cursor) : Except Fault (Got UInt8) :=
  (take 1 c).map fun (b, c) => (b.headD 0, c)

def checkTag (c : Cursor) (b : UInt8) : Except Fault Tag :=
  if Tag.number b = 31 then .error (c.fault .invalidTagNumber)
  else if (Tag.universalNames.lookup b).isSome || 0x40 ≤ b then .ok b
  else .error (c.fault (.unknownTag b))

def tag (c : Cursor) : Except Fault (Got Tag) := do
  let (b, c) ← byte c
  let t ← checkTag c b
  .ok (t, c)

/-- The longest value. -/
def maxLength : Nat := 0xfffffff

/-- How many bytes follow the first one of the shortest form of a length. -/
def lengthBytes (n : Nat) : Nat := if n < 0x80 then 0 else Octets.size n

def length (t : Tag) (c : Cursor) : Except Fault (Got Nat) := do
  let (b, c) ← byte c
  if b < 0x80 then .ok (b.toNat, c)
  else if b = 0x80 then .error (c.fault .indefiniteLength)
  else if 0x84 < b then .error (c.fault (.badLength t))
  else
    let count := b.toNat - 0x80
    -- The bytes come one by one, so that a missing one is placed where it lacks.
    let missing := c.remaining
    if missing < count then
      let c := { c with rest := c.rest.drop missing, offset := c.offset + missing }
      .error (c.faultAt (.incomplete (c.offset + 1) c.stop) c.offset)
    else
      let (b, c) ← take count c
      let n := Octets.toNat b
      if maxLength < n then .error (c.fault .overflow)
      else if lengthBytes n = count then .ok (n, c)
      else .error (c.fault (.badLength t))

def header (c : Cursor) : Except Fault (Got (Tag × Nat)) := do
  let (t, c) ← tag c
  let (n, c) ← length t c
  .ok ((t, n), c)

/-- A header with a tag that is known in advance. -/
def headerOf (expected : Tag) (c : Cursor) : Except Fault (Got Nat) := do
  let ((t, n), c) ← header c
  if t = expected then .ok (n, c)
  else .error (c.fault (.unexpectedTag (some expected) t))

/-- Nothing may be left. -/
def finish (c : Cursor) : Except Fault Unit :=
  if c.remaining = 0 then .ok ()
  else .error (c.faultAt (.trailing c.position c.remaining) c.position)

/-- Reads `item` from exactly the next `n` bytes. -/
def nested {α : Type} (n : Nat) (item : Cursor → Except Fault (Got α)) (c : Cursor) :
    Except Fault (Got α) :=
  if n ≤ c.remaining then do
    let (v, inner) ← item { c with start := c.offset, stop := c.offset + n }
    finish inner
    .ok (v, { inner with start := c.start, stop := c.stop })
  else .error (c.faultAt (.incomplete (c.offset + n) (c.offset + c.remaining)) c.offset)

/-- A field of a sequence: its faults are placed from the start of the sequence. -/
def field {α : Type} (item : Cursor → Except Fault (Got α)) (c : Cursor) : Except Fault (Got α) :=
  (item c).mapError fun f => { f with place := some (f.reached - c.start + f.place.getD 0) }

def sequence {α : Type} (item : Cursor → Except Fault (Got α)) (c : Cursor) :
    Except Fault (Got α) := do
  let (n, c) ← headerOf Tag.sequence c
  nested n item c

/-- The magnitude in the bytes of an integer that is not negative. -/
def magnitude (c : Cursor) : Bytes → Except Fault Bytes
  | [] => .error (c.fault (.notCanonical Tag.integer))
  | [0] => .ok [0]
  | 0 :: b :: rest =>
    if b < 0x80 then .error (c.fault (.notCanonical Tag.integer)) else .ok (b :: rest)
  | b :: rest =>
    if 0x80 ≤ b then .error (c.fault (.badValue Tag.integer)) else .ok (b :: rest)

def natural (c : Cursor) : Except Fault (Got Nat) := do
  let (n, c) ← headerOf Tag.integer c
  let (b, c) ← take n c
  let m ← magnitude c b
  .ok (Octets.toNat m, c)

/-- A natural of one byte. -/
def smallNatural (c : Cursor) : Except Fault (Got Nat) := do
  let (n, c) ← headerOf Tag.integer c
  if n = 0 then .error (c.fault (.badLength Tag.integer))
  else if 2 < n then .error (c.fault (.notCanonical Tag.integer))
  else
    let (b, c) ← take n c
    let m ← magnitude c b
    if 1 < m.length then .error (c.fault (.badLength Tag.integer))
    else .ok (Octets.toNat m, c)

/-- The bytes of a value with a tag that is known in advance. -/
def content (expected : Tag) (c : Cursor) : Except Fault (Got Bytes) := do
  let (n, c) ← headerOf expected c
  take n c

/-- Any value. -/
def any (c : Cursor) : Except Fault (Got (Tag × Bytes)) := do
  let ((t, n), c) ← header c
  let (b, c) ← take n c
  .ok ((t, b), c)

/-- The tag that comes next, if anything does. -/
def peekTag (c : Cursor) : Except Fault (Option Tag) :=
  if c.remaining = 0 then .ok none
  else (checkTag c (c.rest.headD 0)).map some

/-- Items up to the end; each takes at least a byte of the fuel. -/
def many {α : Type} (item : Cursor → Except Fault (Got α)) :
    Nat → Cursor → Except Fault (Got (List α))
  | 0, c => .ok ([], c)
  | fuel + 1, c =>
    if c.remaining = 0 then .ok ([], c)
    else do
      let (v, c) ← item c
      let (vs, c) ← many item fuel c
      .ok (v :: vs, c)

/-- Reads a whole document. -/
def document {α : Type} (item : Cursor → Except Fault (Got α)) (b : Bytes) : Except Fault α := do
  let (v, c) ← item (Cursor.ofBytes b)
  finish c
  .ok v

/-- A document must be one sequence; what is in it is not looked at. -/
def oneSequence (b : Bytes) : Except Fault Unit := do
  let c := Cursor.ofBytes b
  let ((t, n), body) ← header c
  if t ≠ Tag.sequence then .error (c.fault (.unexpectedTag (some Tag.sequence) t))
  else if maxLength < body.offset + n then .error (c.fault .overflow)
  else
    let (_, c) ← take (body.offset + n) c
    finish c

end IdentityTokens.Asn1
