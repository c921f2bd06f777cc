import IdentityTokens.Text.Utf8

/-! Files as far as they are read here: a name gives bytes or says why not. -/
namespace IdentityTokens

inductive FileFault where
  | missing
  | notADirectory
  | isADirectory
  | nameTooLong
  | nulInName
deriving DecidableEq, Repr

def FileFault.message : FileFault → String
  | .missing => "No such file or directory (os error 2)"
  | .notADirectory => "Not a directory (os error 20)"
  | .isADirectory => "Is a directory (os error 21)"
  | .nameTooLong => "File name too long (os error 36)"
  | .nulInName => "file name contained an unexpected NUL byte"

abbrev Files := String → Except FileFault Bytes

/-- Without any file. -/
def Files.none : Files := fun _ => .error .missing

end IdentityTokens
