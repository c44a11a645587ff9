import Surveyor.Text.Basic

/-! # Reading UTF-8

An ill-formed sequence is read as the replacement character, one for every longest start of a
well-formed sequence and one for every byte that starts none.
-/

namespace Surveyor.Utf8

/-- A first byte: the bits it contributes, how many bytes follow, and the range of the next one. -/
structure Lead where
  bits : Nat
  follow : Nat
  low : Nat
  high : Nat

/-- The lead bytes of sequences of two to four bytes. -/
def lead? (b : Nat) : Option Lead :=
  if 0xc2 ≤ b && b ≤ 0xdf then some ⟨b - 0xc0, 1, 0x80, 0xbf⟩
  else if b == 0xe0 then some ⟨0, 2, 0xa0, 0xbf⟩
  else if b == 0xed then some ⟨0xd, 2, 0x80, 0x9f⟩
  else if 0xe1 ≤ b && b ≤ 0xef then some ⟨b - 0xe0, 2, 0x80, 0xbf⟩
  else if b == 0xf0 then some ⟨0, 3, 0x90, 0xbf⟩
  else if 0xf1 ≤ b && b ≤ 0xf3 then some ⟨b - 0xf0, 3, 0x80, 0xbf⟩
  else if b == 0xf4 then some ⟨4, 3, 0x80, 0x8f⟩
  else none

def replacement : Char := Char.ofNat 0xfffd

def byte? (bytes : ByteArray) (i : Nat) : Option Nat :=
  if h : i < bytes.size then some bytes[i].toNat else none

/-- Reads `follow` more bytes from `i`, the first of them between `low` and `high`: the character,
or the replacement for what was read, and the offset after it. -/
def continuation (bytes : ByteArray) : (follow bits low high i : Nat) → Char × Nat
  | 0, bits, _, _, i => (Char.ofNat bits, i)
  | follow + 1, bits, low, high, i =>
    match byte? bytes i with
    | some b =>
      if low ≤ b && b ≤ high then
        continuation bytes follow (bits * 64 + (b - 0x80)) 0x80 0xbf (i + 1)
      else (replacement, i)
    | none => (replacement, i)

def charAt (bytes : ByteArray) (b i : Nat) : Char × Nat :=
  if b < 0x80 then (Char.ofNat b, i + 1)
  else
    match lead? b with
    | some lead => continuation bytes lead.follow lead.bits lead.low lead.high (i + 1)
    | none => (replacement, i + 1)

/-- Reads the bytes from an offset on, at most `fuel` characters. -/
def decodeFrom (bytes : ByteArray) : Nat → Nat → Text → Text
  | 0, _, found => found
  | fuel + 1, i, found =>
    match byte? bytes i with
    | none => found
    | some b =>
      let (c, next) := charAt bytes b i
      decodeFrom bytes fuel next (found.push c)

/-! ## Faults -/

inductive Reason where
  | start
  | continuation
  | ended
  deriving DecidableEq, Repr

def Reason.text : Reason → String
  | .start => "invalid start byte"
  | .continuation => "invalid continuation byte"
  | .ended => "unexpected end of data"

structure Fault where
  offset : Nat
  bytes : List Nat
  reason : Reason
  deriving DecidableEq, Repr

/-- `byte 0xff in position 3: …`, or the range of the positions of several bytes. -/
def Fault.message (f : Fault) : String :=
  let where_ := match f.bytes with
    | [b] =>
      let digits := Nat.toDigits 16 b
      "byte 0x" ++ String.ofList (List.replicate (2 - digits.length) '0' ++ digits)
        ++ " in position " ++ toString f.offset
    | several =>
      "bytes in position " ++ toString f.offset ++ "-" ++ toString (f.offset + several.length - 1)
  where_ ++ ": " ++ f.reason.text

/-- The fault of a sequence at `start` of which the bytes before `i` are right and `follow` are still
missing, the first of them between `low` and `high`. -/
def continuationFault? (bytes : ByteArray) (start : Nat) : (follow low high i : Nat) → Option Fault
  | 0, _, _, _ => none
  | follow + 1, low, high, i =>
    let sound := (List.range (i - start)).filterMap fun n => byte? bytes (start + n)
    match byte? bytes i with
    | some b =>
      if low ≤ b && b ≤ high then continuationFault? bytes start follow 0x80 0xbf (i + 1)
      else some ⟨start, sound, .continuation⟩
    | none => some ⟨start, sound, .ended⟩

def faultAt? (bytes : ByteArray) (b i : Nat) : Option Fault :=
  if b < 0x80 then none
  else
    match lead? b with
    | some lead => continuationFault? bytes i lead.follow lead.low lead.high (i + 1)
    | none => some ⟨i, [b], .start⟩

def faultFrom? (bytes : ByteArray) : Nat → Nat → Option Fault
  | 0, _ => none
  | fuel + 1, i =>
    match byte? bytes i with
    | none => none
    | some b =>
      match faultAt? bytes b i with
      | some fault => some fault
      | none => faultFrom? bytes fuel (charAt bytes b i).2

def fault? (bytes : ByteArray) : Option Fault := faultFrom? bytes bytes.size 0

/-! ## Decoding -/

def decode (bytes : ByteArray) : String := (decodeFrom bytes bytes.size 0 #[]).asString

end Surveyor.Utf8
