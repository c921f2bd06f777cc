import IdentityTokens.Net.Host
import IdentityTokens.Text.Decimal

/-! Absolute addresses of the web, read leniently and kept in a normal form: host
in lower case, no dot segments, nothing in the path, query or fragment that has to
be encoded, and no number behind the host that its scheme implies. -/
namespace IdentityTokens

structure Url where
  scheme : String
  /-- Name and password before the host, decoded. -/
  login : Option (String × String)
  host : String
  portNumber : Option Nat
  path : String
  query : Option String
  fragment : Option String
deriving DecidableEq, Repr

namespace Url

/-- Where the scheme is another one, the address is shown as far as it can be read. -/
inductive Fault where
  | unreadable
  | otherScheme (shown : String)
deriving DecidableEq, Repr

def isBreak (c : Char) : Bool := c = '\t' || c = '\n' || c = '\r'

/-- Without blanks and controls around it, and without breaks in it. -/
def cleaned (s : List Char) : List Char :=
  let isEdge (c : Char) : Bool := c ≤ ' '
  (((s.dropWhile isEdge).reverse.dropWhile isEdge).reverse).filter fun c => !isBreak c

def scheme? (s : List Char) : Option (String × List Char) :=
  let mayFollow (c : Char) : Bool := c.isAlphanum || c = '+' || c = '-' || c = '.'
  match s.head?.map Char.isAlpha, s.dropWhile mayFollow with
  | some true, ':' :: rest =>
    some (String.ofList ((s.takeWhile mayFollow).map Char.toLower), rest)
  | _, _ => none

def impliedPortNumber? (scheme : String) : Option Nat :=
  if scheme = "http" || scheme = "ws" then some 80
  else if scheme = "https" || scheme = "wss" then some 443
  else if scheme = "ftp" then some 21
  else none

def isSlash (c : Char) : Bool := c = '/' || c = '\\'

/-- The name of a segment with encoded dots read as dots. -/
def dots : List Char → List Char
  | '%' :: '2' :: c :: rest =>
    if c = 'e' || c = 'E' then '.' :: dots rest else '%' :: '2' :: c :: rest
  | c :: rest => c :: dots rest
  | [] => []

/-- Takes away one dots and what two dots go back over; `done` holds the segments
so far, the last one first. -/
def resolve (done : List (List Char)) : List (List Char) → List (List Char)
  | [] => done.reverse
  | s :: rest =>
    if dots s = ['.', '.'] then
      resolve (if rest.isEmpty then [] :: done.drop 1 else done.drop 1) rest
    else if dots s = ['.'] then resolve (if rest.isEmpty then [] :: done else done) rest
    else resolve (s :: done) rest

def pathMarks : List Char := ['"', '#', '<', '>', '?', Char.ofNat 96, '\x7b', '\x7d']
def queryMarks : List Char := ['"', '#', '<', '>', Char.ofNat 39]
def fragmentMarks : List Char := ['"', '<', '>', Char.ofNat 96]

/-- The normal form of a path, which starts with a slash. -/
def normalPath (written : List Char) : String :=
  let written := if (written.head?.map isSlash).getD false then written.drop 1 else written
  let done := resolve [] (Text.cut isSlash (Percent.encode (Percent.isPlain pathMarks) written))
  String.ofList ((if done.isEmpty then [[]] else done).flatMap fun s => '/' :: s)

/-- What stands before and after the last `@`. -/
def atLast (s : List Char) : Option (List Char) × List Char :=
  match s.reverse.dropWhile (· ≠ '@') with
  | [] => (none, s)
  | _ :: before => (some before.reverse, (s.reverse.takeWhile (· ≠ '@')).reverse)

def login? (written : List Char) : Option (String × String) :=
  let decoded (s : List Char) : String := Text.ofBytesLossy (Percent.decode s)
  let name := written.takeWhile (· ≠ ':')
  let password := (written.dropWhile (· ≠ ':')).drop 1
  if name.isEmpty && password.isEmpty then none else some (decoded name, decoded password)

def maxPortNumber : Nat := 65535

def portNumber? (written : List Char) : Option (Option Nat) :=
  if written.isEmpty then some none
  else if written.all Char.isDigit then
    match Host.value? 10 written with
    | some n => if n ≤ maxPortNumber then some (some n) else none
    | none => none
  else none

def webParts? (scheme : String) (rest : List Char) : Option Url := do
  let rest := rest.dropWhile isSlash
  let endsAuthority (c : Char) : Bool := isSlash c || c = '?' || c = '#'
  let (login, place) := atLast (rest.takeWhile fun c => !endsAuthority c)
  let tail := rest.dropWhile fun c => !endsAuthority c
  let (host, number) := Host.atColon place
  let host ← Host.normal? host
  let number ← portNumber? number
  let beforeFragment := tail.takeWhile (· ≠ '#')
  let query := beforeFragment.dropWhile (· ≠ '?')
  let fragment := tail.dropWhile (· ≠ '#')
  let encoded (marks : List Char) (s : List Char) : Option String :=
    if s.isEmpty then none
    else some (String.ofList (Percent.encode (Percent.isPlain marks) (s.drop 1)))
  return {
    scheme := scheme
    login := login.bind login?
    host := host
    portNumber := number.filter fun n => impliedPortNumber? scheme ≠ some n
    path := normalPath (beforeFragment.takeWhile (· ≠ '?'))
    query := encoded queryMarks query
    fragment := encoded fragmentMarks fragment }

/-- The address as it is sent: the fragment stays behind. -/
def target (u : Url) : String :=
  u.scheme ++ "://" ++ u.host ++ (match u.portNumber with | none => "" | some n => s!":{n}") ++
    u.path ++ (match u.query with | none => "" | some q => "?" ++ q)

/-- The address as it is shown: without the login. -/
def text (u : Url) : String :=
  u.target ++ (match u.fragment with | none => "" | some f => "#" ++ f)

def parse (s : String) : Except Fault Url :=
  match scheme? (cleaned s.toList) with
  | none => .error .unreadable
  | some (scheme, rest) =>
    if (impliedPortNumber? scheme).isSome then
      match webParts? scheme rest with
      | none => .error .unreadable
      | some u =>
        if scheme = "http" || scheme = "https" then .ok u else .error (.otherScheme u.text)
    else
      let rest := String.ofList (Percent.encode Percent.isPrintable rest)
      .error (.otherScheme (scheme ++ ":" ++ rest))

end Url

end IdentityTokens
