import Surveyor.Yaml.Cursor

/-! # Octets of a YAML text

Octets are written in letters of six bits each, four to three octets. The last group is filled up
with equals signs; characters that are no letters are passed over.
-/

namespace Surveyor.Yaml

def sextet? (c : Char) : Option Nat :=
  if c.isUpper then some (c.toNat - 65)
  else if c.isLower then some (c.toNat - 71)
  else if c.isDigit then some (c.toNat + 4)
  else if c == '+' then some 62
  else if c == '/' then some 63
  else none

/-- A group of which some letters are read. -/
structure Group where
  /-- The number of letters read. -/
  letters : Nat
  /-- The bits that belong to the next octet. -/
  bits : Nat
  /-- The number of equals signs since the last letter. -/
  marks : Nat

namespace Group

def empty : Group := ⟨0, 0, 0⟩

/-- The group after one more letter, and the octet that is complete with it. -/
def add (g : Group) (sextet : Nat) : Group × List Nat :=
  match g.letters with
  | 0 => (⟨1, sextet, 0⟩, [])
  | 1 => (⟨2, sextet % 16, 0⟩, [g.bits * 4 + sextet / 16])
  | 2 => (⟨3, sextet % 4, 0⟩, [g.bits * 16 + sextet / 4])
  | _ => (empty, [g.bits * 64 + sextet])

end Group

/-- Reads letters up to the end, or up to the equals sign that fills up a group. -/
def octetsFrom (g : Group) : List Char → Except YamlError (List Nat)
  | [] => if g.letters == 0 then .ok [] else .error .malformed
  | '=' :: rest =>
    if g.letters < 2 then octetsFrom g rest
    else if 4 ≤ g.letters + g.marks + 1 then .ok []
    else octetsFrom { g with marks := g.marks + 1 } rest
  | c :: rest =>
    match sextet? c with
    | none => octetsFrom g rest
    | some sextet => do
      let (g, complete) := g.add sextet
      return complete ++ (← octetsFrom g rest)

def octetsOf (text : String) : Except YamlError (List Nat) :=
  let chars := text.toList
  if chars.all (·.toNat < 128) then octetsFrom .empty chars else .error .malformed

end Surveyor.Yaml
