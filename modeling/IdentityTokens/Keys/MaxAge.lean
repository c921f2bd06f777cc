import IdentityTokens.Keys.Basic
import IdentityTokens.Text.Blank
import IdentityTokens.Text.Cut
import IdentityTokens.Text.Decimal

/-! How long an answer may be kept: the first directive of the form `max-age=…`
in its header decides, in seconds. -/
namespace IdentityTokens.MaxAge

def directives (header : String) : List (List Char) := Text.cut (· = ',') header.toList

/-- The trimmed name and value of a directive that has a value. -/
def assignment? (directive : List Char) : Option (List Char × List Char) :=
  match directive.dropWhile (· ≠ '=') with
  | [] => none
  | _ :: value => some (Text.trimChars (directive.takeWhile (· ≠ '=')), Text.trimChars value)

def isMaxAge (name : List Char) : Bool := name.map Char.toLower == "max-age".toList

/-- The value of the first directive that counts. -/
def value? (header : String) : Option String :=
  (((directives header).filterMap assignment?).find? fun d => isMaxAge d.1).map fun d =>
    String.ofList d.2

def maxSeconds : Int := UInt64.size - 1

def ofHeader (header : Option String) : Except AuthError Nat :=
  match value? (header.getD "") with
  | none => .error (certificateError "could not find expiry time from HTTP headers")
  | some value =>
    match Text.decimal? 0 maxSeconds value with
    | .ok seconds => .ok seconds.toNat
    | .error f =>
      .error (certificateError ("invalid max-age value " ++ Text.quoted value ++ ": " ++ f.message))

end IdentityTokens.MaxAge
