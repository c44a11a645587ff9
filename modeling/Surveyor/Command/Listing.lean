import Surveyor.FileTree.Basic
import Surveyor.Json.Reader

/-! # Listings of files

A listing names the files of a project, one on a line: the time of the last change in seconds since
1970, of which a fraction may follow a point, then a blank, then the path.
-/

namespace Surveyor.Command

structure ListedFile where
  path : String
  modified : Int
  deriving DecidableEq, Repr

/-- The first six decimal places of a fraction as a whole number. -/
def sixPlaces (digits : List Char) : Nat :=
  let places := digits.take 6
  digitsToNat (places ++ List.replicate (6 - places.length) '0')

/-- The microseconds that a decimal number of seconds makes. -/
def microseconds? (seconds : List Char) : Option Int :=
  let (whole, rest) := seconds.span Char.isDigit
  match rest with
  | [] => if whole.isEmpty then none else some (digitsToNat whole * 1000000)
  | '.' :: fraction =>
    if whole.isEmpty || !fraction.all Char.isDigit then none
    else some (digitsToNat whole * 1000000 + sixPlaces fraction)
  | _ => none

/-- The file that a line of a listing names. -/
def ListedFile.ofLine? (line : String) : Option ListedFile :=
  match Text.splitOnce ' ' (Text.stripRight (fun c => c == '\n' || c == '\r') line) with
  | (seconds, some path) => (microseconds? seconds.toList).map fun modified => ⟨path, modified⟩
  | (_, none) => none

end Surveyor.Command
