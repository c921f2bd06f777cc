import IdentityTokens.Net.Percent
import IdentityTokens.Text.Cut

/-! Hosts of addresses: names in lower case, numbers with four parts, and numbers
with eight parts in brackets. A name that ends in a number has to be one. Names
outside ASCII are no hosts here. -/
namespace IdentityTokens.Host

def labels (name : List Char) : List (List Char) := Text.cut (· = '.') name

/-- The value of digits of a base. -/
def value? (base : Nat) (digits : List Char) : Option Nat :=
  digits.foldlM (fun n c => (Percent.digit? c).bind fun d =>
    if d < base then some (n * base + d) else none) 0

/-- A part of a numeric host: decimal, octal after a zero, hexadecimal after `0x`. -/
def part? : List Char → Option Nat
  | [] => none
  | ['0'] => some 0
  | '0' :: c :: rest =>
    if c = 'x' || c = 'X' then value? 16 rest else value? 8 (c :: rest)
  | digits => value? 10 digits

/-- The labels without an empty one at the end. -/
def trimmedLabels (name : List Char) : List (List Char) :=
  match (labels name).reverse with
  | [] :: l :: ls => (l :: ls).reverse
  | ls => ls.reverse

def endsInNumber (name : List Char) : Bool :=
  match (trimmedLabels name).getLast? with
  | none => false
  | some l => (!l.isEmpty && l.all Char.isDigit) ||
      ((l.take 2 == ['0', 'x'] || l.take 2 == ['0', 'X']) && (part? l).isSome)

/-- The last part fills what the ones before it leave. -/
def address? : List Nat → Option Nat
  | [] => none
  | parts =>
    let last := parts.getLastD 0
    let count := parts.length
    if count ≤ 4 && parts.dropLast.all (· < 256) && last < Nat.pow 256 (5 - count) then
      some <| parts.dropLast.zipIdx.foldl (fun a (p, i) => a + p * Nat.pow 256 (3 - i)) last
    else none

def dotted (address : Nat) : String :=
  let a := address / 16777216
  let b := address / 65536 % 256
  let c := address / 256 % 256
  let d := address % 256
  s!"{a}.{b}.{c}.{d}"

/-! ### Eight parts -/

/-- What stands before and after the first two colons in a row. -/
def atGap : List Char → Option (List Char × List Char)
  | ':' :: ':' :: rest => some ([], rest)
  | c :: rest => (atGap rest).map fun (l, r) => (c :: l, r)
  | [] => none

def group? (s : List Char) : Option Nat :=
  if s.isEmpty || 4 < s.length then none else value? 16 s

/-- One of four decimal parts in the place of the last two groups. -/
def byte? (s : List Char) : Option Nat :=
  if s.isEmpty || (1 < s.length && s.head? == some '0') then none
  else (value? 10 s).filter (· < 256)

/-- The last group, or two of them as four decimal parts. -/
def lastGroups? (s : List Char) : Option (List Nat) :=
  if s.contains '.' then do
    match ← (labels s).mapM byte? with
    | [a, b, c, d] => some [a * 256 + b, c * 256 + d]
    | _ => none
  else (group? s).map fun g => [g]

def groupValues? (s : List Char) : Option (List Nat) :=
  if s.isEmpty then some []
  else do
    let gs := Text.cut (· = ':') s
    let before ← gs.dropLast.mapM group?
    some (before ++ (← lastGroups? (gs.getLastD [])))

/-- All eight groups; a gap stands for as many zeros as are missing. -/
def eight? (s : List Char) : Option (List Nat) :=
  match atGap s with
  | none => (groupValues? s).filter fun gs => gs.length = 8
  | some (l, r) => do
    let l ← groupValues? l
    let r ← groupValues? r
    if l.length + r.length < 8 then
      some (l ++ List.replicate (8 - l.length - r.length) 0 ++ r)
    else none

/-- The place and length of the first longest run of zeros. -/
def longestRun (gs : List Nat) : Nat × Nat :=
  (List.range gs.length).foldl (fun best i =>
    let length := ((gs.drop i).takeWhile (· = 0)).length
    if best.2 < length then (i, length) else best) (0, 0)

def colonText (gs : List Nat) : String :=
  ":".intercalate (gs.map fun g => String.ofList (Nat.toDigits 16 g))

/-- A run of two zeros or more is written as a gap. -/
def eightText (gs : List Nat) : String :=
  let (place, length) := longestRun gs
  if length < 2 then colonText gs
  else colonText (gs.take place) ++ "::" ++ colonText (gs.drop (place + length))

/-! ### Names -/

/-- What may not stand in a name. -/
def isForbidden (c : Char) : Bool :=
  !Percent.isPlain ['#', '%', '/', ':', '<', '>', '?', '@', '[', '\\', ']', '^', '|'] c

def named? (written : List Char) : Option String := do
  let name ← Utf8.decode? (Percent.decode written)
  let name := name.map Char.toLower
  if name.isEmpty || name.any isForbidden then none
  else if endsInNumber name then
    ((trimmedLabels name).mapM part?).bind address? |>.map dotted
  else some (String.ofList name)

/-- The normal form of a host as it is written. -/
def normal? (written : List Char) : Option String :=
  match written with
  | '[' :: rest =>
    if rest.getLast? == some ']' then
      (eight? rest.dropLast).map fun gs => "[" ++ eightText gs ++ "]"
    else none
  | _ => named? written

/-- What stands before and after the first colon outside of brackets. -/
def atColon (s : List Char) : List Char × List Char :=
  match s with
  | '[' :: _ =>
    let behind := s.dropWhile (· ≠ ']')
    (s.takeWhile (· ≠ ']') ++ behind.takeWhile (· ≠ ':'), (behind.dropWhile (· ≠ ':')).drop 1)
  | _ => (s.takeWhile (· ≠ ':'), (s.dropWhile (· ≠ ':')).drop 1)

end IdentityTokens.Host
