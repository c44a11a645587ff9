import Surveyor.Number.Binary64
import Surveyor.Pattern.Vocabulary
import Surveyor.Source.Lines

/-! # Packed and obfuscated scripts

A script counts as obfuscated if a large part of it is escaped, if it has hardly any blanks, or if
one of its lines is very long.
-/

namespace Surveyor

open Pattern

def isHexDigit (c : Char) : Bool :=
  c.isDigit || ('a' ≤ c && c ≤ 'f') || ('A' ≤ c && c ≤ 'F')

def escapePattern : Pattern :=
  let hex := Pattern.one isHexDigit
  lit "\\x" ++ hex ++ hex <|> lit "\\u" ++ hex ++ hex ++ hex ++ hex

/-- The limit of both ratios, one twentieth. -/
def densityLimit : Float := Binary64.nearest 5 100

def escapedLength (t : Text) : Nat :=
  sumOf (fun m => m.stop - m.start) (escapePattern.findAll (Subject.ofText t))

def looksObfuscated (t : Text) : Bool :=
  let length := t.size
  if length < 512 then false
  else if Binary64.nearest (escapedLength t) length > densityLimit then true
  else if 1000 ≤ length && Binary64.nearest (t.countP isBlank) length < densityLimit then true
  else (textLines t).any fun line => 5000 ≤ line.length

def countLines (content : String) : Nat := Text.countChar '\n' content + 1

end Surveyor
