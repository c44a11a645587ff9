import Surveyor.Text.CaseContext

/-! # Lower case

`lowerChar` maps one character to one; `lower` maps a whole text, where the dotted capital I takes
two characters and a capital sigma that ends a word becomes the final form. Two characters are alike
without regard to case if they have the same small letter, or if their small letters are variants of one
another: the long s of s, the dotless i of i, the final sigma of sigma, and the like.
-/

namespace Surveyor

/-- A run of capitals with one distance to their small letters: every character from `first` to
`last` (every second one if `alternating`) lies `distance` below its small letter. -/
structure CaseRun where
  first : Nat
  last : Nat
  alternating : Bool
  distance : Int

/-- Capitals above the ASCII range, in ascending order. -/
def caseRuns : Array CaseRun := #[
    ⟨0xc0, 0xd6, false, 32⟩, ⟨0xd8, 0xde, false, 32⟩, ⟨0x100, 0x12e, true, 1⟩,
    ⟨0x130, 0x130, false, -199⟩, ⟨0x132, 0x136, true, 1⟩, ⟨0x139, 0x147, true, 1⟩,
    ⟨0x14a, 0x176, true, 1⟩, ⟨0x178, 0x178, false, -121⟩, ⟨0x179, 0x17d, true, 1⟩,
    ⟨0x181, 0x181, false, 210⟩, ⟨0x182, 0x184, true, 1⟩, ⟨0x186, 0x186, false, 206⟩,
    ⟨0x187, 0x187, false, 1⟩, ⟨0x189, 0x18a, false, 205⟩, ⟨0x18b, 0x18b, false, 1⟩,
    ⟨0x18e, 0x18e, false, 79⟩, ⟨0x18f, 0x18f, false, 202⟩, ⟨0x190, 0x190, false, 203⟩,
    ⟨0x191, 0x191, false, 1⟩, ⟨0x193, 0x193, false, 205⟩, ⟨0x194, 0x194, false, 207⟩,
    ⟨0x196, 0x196, false, 211⟩, ⟨0x197, 0x197, false, 209⟩, ⟨0x198, 0x198, false, 1⟩,
    ⟨0x19c, 0x19c, false, 211⟩, ⟨0x19d, 0x19d, false, 213⟩, ⟨0x19f, 0x19f, false, 214⟩,
    ⟨0x1a0, 0x1a4, true, 1⟩, ⟨0x1a6, 0x1a6, false, 218⟩, ⟨0x1a7, 0x1a7, false, 1⟩,
    ⟨0x1a9, 0x1a9, false, 218⟩, ⟨0x1ac, 0x1ac, false, 1⟩, ⟨0x1ae, 0x1ae, false, 218⟩,
    ⟨0x1af, 0x1af, false, 1⟩, ⟨0x1b1, 0x1b2, false, 217⟩, ⟨0x1b3, 0x1b5, true, 1⟩,
    ⟨0x1b7, 0x1b7, false, 219⟩, ⟨0x1b8, 0x1b8, false, 1⟩, ⟨0x1bc, 0x1bc, false, 1⟩,
    ⟨0x1c4, 0x1c4, false, 2⟩, ⟨0x1c5, 0x1c5, false, 1⟩, ⟨0x1c7, 0x1c7, false, 2⟩,
    ⟨0x1c8, 0x1c8, false, 1⟩, ⟨0x1ca, 0x1ca, false, 2⟩, ⟨0x1cb, 0x1db, true, 1⟩,
    ⟨0x1de, 0x1ee, true, 1⟩, ⟨0x1f1, 0x1f1, false, 2⟩, ⟨0x1f2, 0x1f4, true, 1⟩,
    ⟨0x1f6, 0x1f6, false, -97⟩, ⟨0x1f7, 0x1f7, false, -56⟩, ⟨0x1f8, 0x21e, true, 1⟩,
    ⟨0x220, 0x220, false, -130⟩, ⟨0x222, 0x232, true, 1⟩, ⟨0x23a, 0x23a, false, 10795⟩,
    ⟨0x23b, 0x23b, false, 1⟩, ⟨0x23d, 0x23d, false, -163⟩, ⟨0x23e, 0x23e, false, 10792⟩,
    ⟨0x241, 0x241, false, 1⟩, ⟨0x243, 0x243, false, -195⟩, ⟨0x244, 0x244, false, 69⟩,
    ⟨0x245, 0x245, false, 71⟩, ⟨0x246, 0x24e, true, 1⟩, ⟨0x370, 0x372, true, 1⟩,
    ⟨0x376, 0x376, false, 1⟩, ⟨0x37f, 0x37f, false, 116⟩, ⟨0x386, 0x386, false, 38⟩,
    ⟨0x388, 0x38a, false, 37⟩, ⟨0x38c, 0x38c, false, 64⟩, ⟨0x38e, 0x38f, false, 63⟩,
    ⟨0x391, 0x3a1, false, 32⟩, ⟨0x3a3, 0x3ab, false, 32⟩, ⟨0x3cf, 0x3cf, false, 8⟩,
    ⟨0x3d8, 0x3ee, true, 1⟩, ⟨0x3f4, 0x3f4, false, -60⟩, ⟨0x3f7, 0x3f7, false, 1⟩,
    ⟨0x3f9, 0x3f9, false, -7⟩, ⟨0x3fa, 0x3fa, false, 1⟩, ⟨0x3fd, 0x3ff, false, -130⟩,
    ⟨0x400, 0x40f, false, 80⟩, ⟨0x410, 0x42f, false, 32⟩, ⟨0x460, 0x480, true, 1⟩,
    ⟨0x48a, 0x4be, true, 1⟩, ⟨0x4c0, 0x4c0, false, 15⟩, ⟨0x4c1, 0x4cd, true, 1⟩,
    ⟨0x4d0, 0x52e, true, 1⟩, ⟨0x531, 0x556, false, 48⟩, ⟨0x10a0, 0x10c5, false, 7264⟩,
    ⟨0x10c7, 0x10c7, false, 7264⟩, ⟨0x10cd, 0x10cd, false, 7264⟩, ⟨0x13a0, 0x13ef, false, 38864⟩,
    ⟨0x13f0, 0x13f5, false, 8⟩, ⟨0x1c90, 0x1cba, false, -3008⟩, ⟨0x1cbd, 0x1cbf, false, -3008⟩,
    ⟨0x1e00, 0x1e94, true, 1⟩, ⟨0x1e9e, 0x1e9e, false, -7615⟩, ⟨0x1ea0, 0x1efe, true, 1⟩,
    ⟨0x1f08, 0x1f0f, false, -8⟩, ⟨0x1f18, 0x1f1d, false, -8⟩, ⟨0x1f28, 0x1f2f, false, -8⟩,
    ⟨0x1f38, 0x1f3f, false, -8⟩, ⟨0x1f48, 0x1f4d, false, -8⟩, ⟨0x1f59, 0x1f5f, true, -8⟩,
    ⟨0x1f68, 0x1f6f, false, -8⟩, ⟨0x1f88, 0x1f8f, false, -8⟩, ⟨0x1f98, 0x1f9f, false, -8⟩,
    ⟨0x1fa8, 0x1faf, false, -8⟩, ⟨0x1fb8, 0x1fb9, false, -8⟩, ⟨0x1fba, 0x1fbb, false, -74⟩,
    ⟨0x1fbc, 0x1fbc, false, -9⟩, ⟨0x1fc8, 0x1fcb, false, -86⟩, ⟨0x1fcc, 0x1fcc, false, -9⟩,
    ⟨0x1fd8, 0x1fd9, false, -8⟩, ⟨0x1fda, 0x1fdb, false, -100⟩, ⟨0x1fe8, 0x1fe9, false, -8⟩,
    ⟨0x1fea, 0x1feb, false, -112⟩, ⟨0x1fec, 0x1fec, false, -7⟩, ⟨0x1ff8, 0x1ff9, false, -128⟩,
    ⟨0x1ffa, 0x1ffb, false, -126⟩, ⟨0x1ffc, 0x1ffc, false, -9⟩, ⟨0x2126, 0x2126, false, -7517⟩,
    ⟨0x212a, 0x212a, false, -8383⟩, ⟨0x212b, 0x212b, false, -8262⟩, ⟨0x2132, 0x2132, false, 28⟩,
    ⟨0x2160, 0x216f, false, 16⟩, ⟨0x2183, 0x2183, false, 1⟩, ⟨0x24b6, 0x24cf, false, 26⟩,
    ⟨0x2c00, 0x2c2f, false, 48⟩, ⟨0x2c60, 0x2c60, false, 1⟩, ⟨0x2c62, 0x2c62, false, -10743⟩,
    ⟨0x2c63, 0x2c63, false, -3814⟩, ⟨0x2c64, 0x2c64, false, -10727⟩, ⟨0x2c67, 0x2c6b, true, 1⟩,
    ⟨0x2c6d, 0x2c6d, false, -10780⟩, ⟨0x2c6e, 0x2c6e, false, -10749⟩,
    ⟨0x2c6f, 0x2c6f, false, -10783⟩, ⟨0x2c70, 0x2c70, false, -10782⟩, ⟨0x2c72, 0x2c72, false, 1⟩,
    ⟨0x2c75, 0x2c75, false, 1⟩, ⟨0x2c7e, 0x2c7f, false, -10815⟩, ⟨0x2c80, 0x2ce2, true, 1⟩,
    ⟨0x2ceb, 0x2ced, true, 1⟩, ⟨0x2cf2, 0x2cf2, false, 1⟩, ⟨0xa640, 0xa66c, true, 1⟩,
    ⟨0xa680, 0xa69a, true, 1⟩, ⟨0xa722, 0xa72e, true, 1⟩, ⟨0xa732, 0xa76e, true, 1⟩,
    ⟨0xa779, 0xa77b, true, 1⟩, ⟨0xa77d, 0xa77d, false, -35332⟩, ⟨0xa77e, 0xa786, true, 1⟩,
    ⟨0xa78b, 0xa78b, false, 1⟩, ⟨0xa78d, 0xa78d, false, -42280⟩, ⟨0xa790, 0xa792, true, 1⟩,
    ⟨0xa796, 0xa7a8, true, 1⟩, ⟨0xa7aa, 0xa7aa, false, -42308⟩, ⟨0xa7ab, 0xa7ab, false, -42319⟩,
    ⟨0xa7ac, 0xa7ac, false, -42315⟩, ⟨0xa7ad, 0xa7ad, false, -42305⟩,
    ⟨0xa7ae, 0xa7ae, false, -42308⟩, ⟨0xa7b0, 0xa7b0, false, -42258⟩,
    ⟨0xa7b1, 0xa7b1, false, -42282⟩, ⟨0xa7b2, 0xa7b2, false, -42261⟩,
    ⟨0xa7b3, 0xa7b3, false, 928⟩, ⟨0xa7b4, 0xa7c2, true, 1⟩, ⟨0xa7c4, 0xa7c4, false, -48⟩,
    ⟨0xa7c5, 0xa7c5, false, -42307⟩, ⟨0xa7c6, 0xa7c6, false, -35384⟩, ⟨0xa7c7, 0xa7c9, true, 1⟩,
    ⟨0xa7d0, 0xa7d0, false, 1⟩, ⟨0xa7d6, 0xa7d8, true, 1⟩, ⟨0xa7f5, 0xa7f5, false, 1⟩,
    ⟨0xff21, 0xff3a, false, 32⟩, ⟨0x10400, 0x10427, false, 40⟩, ⟨0x104b0, 0x104d3, false, 40⟩,
    ⟨0x10570, 0x1057a, false, 39⟩, ⟨0x1057c, 0x1058a, false, 39⟩, ⟨0x1058c, 0x10592, false, 39⟩,
    ⟨0x10594, 0x10595, false, 39⟩, ⟨0x10c80, 0x10cb2, false, 64⟩, ⟨0x118a0, 0x118bf, false, 32⟩,
    ⟨0x16e40, 0x16e5f, false, 32⟩, ⟨0x1e900, 0x1e921, false, 34⟩
  ]

/-- The run that may hold a code point, by bisection of the ascending table. -/
def findCaseRun (code : Nat) : Nat → Nat → Nat → Option CaseRun
  | 0, _, _ => none
  | fuel + 1, low, high =>
    if low < high then
      let middle := (low + high) / 2
      match caseRuns[middle]? with
      | none => none
      | some run =>
        if code < run.first then findCaseRun code fuel low middle
        else if run.last < code then findCaseRun code fuel (middle + 1) high
        else some run
    else none

/-- The small letter of a capital; every other character is its own. -/
def lowerChar (c : Char) : Char :=
  if c.toNat < 128 then c.toLower
  else
    match findCaseRun c.toNat 16 0 caseRuns.size with
    | some run =>
      if run.alternating && (c.toNat - run.first) % 2 == 1 then c
      else Char.ofNat (Int.toNat (c.toNat + run.distance))
    | none => c

/-- Does the nearest character that is not case-ignorable have case? -/
def meetsCased : List Char → Bool
  | [] => false
  | c :: rest => if isCaseIgnorable c then meetsCased rest else isCased c

/-- The small letters of one character between the characters before it (nearest first) and after
it. -/
def lowerInContext (before : List Char) (c : Char) (after : List Char) : List Char :=
  if c.toNat == 0x130 then ['i', Char.ofNat 0x307]
  else if c.toNat == 0x3a3 then
    [Char.ofNat (if meetsCased before && !meetsCased after then 0x3c2 else 0x3c3)]
  else [lowerChar c]

/-- Lower case of the rest of a text, with the characters already passed (nearest first). -/
def lowerChars (before : List Char) : List Char → List Char
  | [] => []
  | c :: rest => lowerInContext before c rest ++ lowerChars (c :: before) rest

def lower (s : String) : String :=
  String.ofList (lowerChars [] s.toList)

/-! ## Comparison without regard to case -/

/-- Small letters that are variants of another one, with that other one. -/
def caseVariants : List (Nat × Nat) := [
    (0x131, 0x69), (0x17f, 0x73), (0x3b9, 0x345), (0x3bc, 0xb5), (0x3c3, 0x3c2), (0x3d0, 0x3b2),
    (0x3d1, 0x3b8), (0x3d5, 0x3c6), (0x3d6, 0x3c0), (0x3f0, 0x3ba), (0x3f1, 0x3c1),
    (0x3f5, 0x3b5), (0x1c80, 0x432), (0x1c81, 0x434), (0x1c82, 0x43e), (0x1c83, 0x441),
    (0x1c84, 0x442), (0x1c85, 0x442), (0x1c86, 0x44a), (0x1c87, 0x463), (0x1e9b, 0x1e61),
    (0x1fbe, 0x345), (0x1fd3, 0x390), (0x1fe3, 0x3b0), (0xa64b, 0x1c88), (0xfb06, 0xfb05)
  ]

/-- One representative for all characters that differ in case or variant only. -/
def foldChar (c : Char) : Char :=
  let small := lowerChar c
  if small.toNat < 128 then small
  else
    match caseVariants.find? (·.1 == small.toNat) with
    | some (_, base) => Char.ofNat base
    | none => small

def caselessEq (a b : Char) : Bool :=
  a == b || foldChar a == foldChar b

end Surveyor
