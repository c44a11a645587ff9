/-! # Code points

Classes of characters are told by their codes: blanks and line breaks, the ranges of a table, the decimal
digits of every script, and the halves of a surrogate pair.
-/

namespace Surveyor

/-! ## Blank characters and line breaks -/

/-- White space of every script, the ASCII information separators included. -/
def isBlank (c : Char) : Bool :=
  let code := c.toNat
  (9 ≤ code && code ≤ 13) || (28 ≤ code && code ≤ 32) || code == 0x85 || code == 0xa0
    || code == 0x1680 || (0x2000 ≤ code && code ≤ 0x200a) || code == 0x2028 || code == 0x2029
    || code == 0x202f || code == 0x205f || code == 0x3000

/-- Characters that end a line of running text, with the separators that are not newlines. -/
def isLineBreak (c : Char) : Bool :=
  let code := c.toNat
  (10 ≤ code && code ≤ 13) || (28 ≤ code && code ≤ 30) || code == 0x85 || code == 0x2028
    || code == 0x2029

/-! ## Sets of code points given by ranges -/

/-- An inclusive range of code points, least one first. -/
abbrev CodeRange := Nat × Nat

/-- Bisection of `table` between the indices `low` and `high`; each step halves the stretch. -/
def bisectRanges (table : Array CodeRange) (code : Nat) : Nat → Nat → Nat → Bool
  | 0, _, _ => false
  | fuel + 1, low, high =>
    if low < high then
      let middle := (low + high) / 2
      match table[middle]? with
      | none => false
      | some (first, last) =>
        if code < first then bisectRanges table code fuel low middle
        else if last < code then bisectRanges table code fuel (middle + 1) high
        else true
    else false

/-- Does a range of the ascending `table` hold `code`? -/
def inRanges (table : Array CodeRange) (code : Nat) : Bool :=
  bisectRanges table code 16 0 table.size

/-! ## Decimal digits

Every script writes its decimal digits as ten consecutive code points, so a digit is determined by
the zero below it.
-/

/-- The zeros of the decimal scripts above the ASCII range, in ascending order. -/
def decimalZeros : Array Nat := #[
    0x660, 0x6f0, 0x7c0, 0x966, 0x9e6, 0xa66, 0xae6, 0xb66, 0xbe6, 0xc66, 0xce6, 0xd66, 0xde6,
    0xe50, 0xed0, 0xf20, 0x1040, 0x1090, 0x17e0, 0x1810, 0x1946, 0x19d0, 0x1a80, 0x1a90, 0x1b50,
    0x1bb0, 0x1c40, 0x1c50, 0xa620, 0xa8d0, 0xa900, 0xa9d0, 0xa9f0, 0xaa50, 0xabf0, 0xff10,
    0x104a0, 0x10d30, 0x11066, 0x110f0, 0x11136, 0x111d0, 0x112f0, 0x11450, 0x114d0, 0x11650,
    0x116c0, 0x11730, 0x118e0, 0x11950, 0x11c50, 0x11d50, 0x11da0, 0x16a60, 0x16ac0, 0x16b50,
    0x1d7ce, 0x1d7d8, 0x1d7e2, 0x1d7ec, 0x1d7f6, 0x1e140, 0x1e2f0, 0x1e950, 0x1fbf0
  ]

/-- The value of a decimal digit of any script. -/
def decimalDigit? (c : Char) : Option Nat :=
  if c.toNat < 128 then
    if c.isDigit then some (c.toNat - 48) else none
  else
    (decimalZeros.find? fun first => first ≤ c.toNat && c.toNat < first + 10).map (c.toNat - ·)

/-! ## Halves of a surrogate pair

UTF-16 writes a character beyond the first 65536 codes as two halves. A half that stands alone is no
character; the replacement character stands in its place.
-/

namespace Surrogate

def isHigh (code : Nat) : Bool := 0xd800 ≤ code && code < 0xdc00

def isLow (code : Nat) : Bool := 0xdc00 ≤ code && code < 0xe000

def join (high low : Nat) : Char := Char.ofNat (0x10000 + (high - 0xd800) * 1024 + (low - 0xdc00))

def charOf (code : Nat) : Char :=
  Char.ofNat (if isHigh code || isLow code then 0xfffd else code)

end Surrogate

end Surveyor
