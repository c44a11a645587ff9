import Surveyor.Text.CodePoint
import Surveyor.Text.Utf8

/-! # Encodings of a text

A text that starts with ASCII characters shows by its first bytes in which encoding it is: a byte
order mark names UTF-8, and zero bytes among the first four tell the wider encodings and the order
of their bytes.
-/

namespace Surveyor

inductive Encoding where
  | utf8
  /-- UTF-8 with a byte order mark. -/
  | markedUtf8
  | utf16 (bigEndian : Bool)
  | utf32 (bigEndian : Bool)
  deriving DecidableEq, Repr

namespace Encoding

def ofBytes (bytes : List Nat) : Encoding :=
  match bytes with
  | 0xef :: 0xbb :: 0xbf :: _ => .markedUtf8
  | a :: b :: c :: d :: _ =>
    if a == 0 then (if b == 0 then .utf32 true else .utf16 true)
    else if b == 0 then (if c == 0 && d == 0 then .utf32 false else .utf16 false)
    else .utf8
  | [a, b] => if a == 0 then .utf16 true else if b == 0 then .utf16 false else .utf8
  | _ => .utf8

/-- The units of two bytes; nothing if a byte is left over. -/
def units16? (bigEndian : Bool) : List Nat → Option (List Nat)
  | [] => some []
  | [_] => none
  | a :: b :: rest =>
    (units16? bigEndian rest).map ((if bigEndian then a * 256 + b else b * 256 + a) :: ·)

/-- The units of four bytes; nothing if bytes are left over. -/
def units32? (bigEndian : Bool) : List Nat → Option (List Nat)
  | [] => some []
  | a :: b :: c :: d :: rest =>
    let unit := if bigEndian then ((a * 256 + b) * 256 + c) * 256 + d
      else ((d * 256 + c) * 256 + b) * 256 + a
    (units32? bigEndian rest).map (unit :: ·)
  | _ => none

/-- Two halves of a surrogate pair are one character. -/
def chars16 : List Nat → List Char
  | [] => []
  | a :: b :: rest =>
    if Surrogate.isHigh a && Surrogate.isLow b then Surrogate.join a b :: chars16 rest
    else Surrogate.charOf a :: chars16 (b :: rest)
  | [a] => [Surrogate.charOf a]

def decode? (encoding : Encoding) (bytes : ByteArray) : Option (List Char) :=
  let octets := bytes.toList.map UInt8.toNat
  match encoding with
  | .utf8 => some (Utf8.decode bytes).toList
  | .markedUtf8 => some ((Utf8.decode bytes).toList.drop 1)
  | .utf16 bigEndian => (units16? bigEndian octets).map chars16
  | .utf32 bigEndian => do
    let units ← units32? bigEndian octets
    if units.all (· < 0x110000) then some (units.map Surrogate.charOf) else none

def read? (bytes : ByteArray) : Option (List Char) :=
  decode? (ofBytes ((bytes.extract 0 4).toList.map UInt8.toNat)) bytes

end Encoding

end Surveyor
