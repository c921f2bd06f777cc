import IdentityTokens.Json.Number

/-! Texts in quotes. Escapes are resolved into bytes, and the bytes must
be UTF-8; a text that is passed over is held to the escapes' form only. -/
namespace IdentityTokens.Json.Quotation

def quote : UInt8 := '"'.toUInt8
def backslash : UInt8 := '\\'.toUInt8

def hexValue? (b : UInt8) : Option Nat :=
  if '0'.toUInt8 ≤ b ∧ b ≤ '9'.toUInt8 then some (b - '0'.toUInt8).toNat
  else if 'a'.toUInt8 ≤ b ∧ b ≤ 'f'.toUInt8 then some ((b - 'a'.toUInt8).toNat + 10)
  else if 'A'.toUInt8 ≤ b ∧ b ≤ 'F'.toUInt8 then some ((b - 'A'.toUInt8).toNat + 10)
  else none

/-- Four hexadecimal digits. -/
def hex4 : Bytes → Except Fault (Got Nat)
  | a :: b :: c :: d :: rest =>
    match hexValue? a, hexValue? b, hexValue? c, hexValue? d with
    | some a, some b, some c, some d => .ok (a * 4096 + b * 256 + c * 16 + d, rest)
    | _, _, _, _ => .error (here .invalidEscape rest)
  | _ => .error (here .endOfText [])

def isLead (n : Nat) : Bool := 0xD800 ≤ n && n < 0xDC00
def isTrail (n : Nat) : Bool := 0xDC00 ≤ n && n < 0xE000

/-- The byte `b` must come next. -/
def escapeGoesOn (b : UInt8) : Bytes → Except Fault Bytes
  | [] => .error (here .endOfText [])
  | a :: rest => if a = b then .ok rest else .error (here .endOfEscape rest)

/-- Behind the mark of a numeric escape: one code point, or two surrogates. -/
def codePoint (rest : Bytes) : Except Fault (Got Char) := do
  let (n, rest) ← hex4 rest
  if isTrail n then .error (here .loneSurrogate rest)
  else if isLead n then
    let rest ← escapeGoesOn backslash rest
    let rest ← escapeGoesOn 'u'.toUInt8 rest
    let (m, rest) ← hex4 rest
    if isTrail m then
      .ok (Char.ofNat (0x10000 + (n - 0xD800) * 1024 + (m - 0xDC00)), rest)
    else .error (here .loneSurrogate rest)
  else .ok (Char.ofNat n, rest)

def shortEscape? (b : UInt8) : Option Char :=
  if b = quote then some '"'
  else if b = backslash then some '\\'
  else if b = '/'.toUInt8 then some '/'
  else if b = 'b'.toUInt8 then some '\x08'
  else if b = 'f'.toUInt8 then some '\x0c'
  else if b = 'n'.toUInt8 then some '\n'
  else if b = 'r'.toUInt8 then some '\r'
  else if b = 't'.toUInt8 then some '\t'
  else none

/-- Behind a backslash. -/
def escape : Bytes → Except Fault (Got Char)
  | [] => .error (here .endOfText [])
  | b :: rest =>
    match shortEscape? b with
    | some c => .ok (c, rest)
    | none =>
      if b = 'u'.toUInt8 then codePoint rest else .error (here .invalidEscape rest)

/-- The bytes up to the closing quote with escapes resolved. The fuel bounds the
number of steps; each takes a byte. -/
def content : Nat → Bytes → Except Fault (Got Bytes)
  | 0, rest => .error (here .endOfText rest)
  | _ + 1, [] => .error (here .endOfText [])
  | fuel + 1, b :: rest =>
    if b = quote then .ok ([], rest)
    else if b = backslash then do
      let (c, rest) ← escape rest
      let (more, rest) ← content fuel rest
      .ok (String.utf8EncodeChar c ++ more, rest)
    else if b < 0x20 then .error (here .controlCharacter rest)
    else do
      let (more, rest) ← content fuel rest
      .ok (b :: more, rest)

/-- A text whose opening quote has been taken. -/
def read (start : Bytes) : Except Fault (Got String) := do
  let (bytes, rest) ← content (start.length + 1) start
  match Text.ofBytes? bytes with
  | some s => .ok (s, rest)
  | none => .error (ahead .invalidCodePoint (start.drop (Utf8.validLength start)))

/-- Passes over a text whose opening quote has been taken. -/
def skip : Nat → Bytes → Except Fault Bytes
  | 0, rest => .error (here .endOfText rest)
  | _ + 1, [] => .error (here .endOfText [])
  | fuel + 1, b :: rest =>
    if b = quote then .ok rest
    else if b = backslash then
      match rest with
      | [] => .error (here .endOfText [])
      | e :: rest =>
        if (shortEscape? e).isSome then skip fuel rest
        else if e = 'u'.toUInt8 then do
          let (_, rest) ← hex4 rest
          skip fuel rest
        else .error (here .invalidEscape rest)
    else if b < 0x20 then .error (here .controlCharacter (b :: rest))
    else skip fuel rest

end IdentityTokens.Json.Quotation
