import Surveyor.Quality.References

/-! # Complexity of files

The complexity of a file is one more than the number of its branches.
-/

namespace Surveyor

open Pattern

def branchPatterns : List (String × Pattern) :=
  [("if", wordEdge ++ opt (lit "else") ++ lit "if" ++ blanks ++ char '('),
    ("else", wordEdge ++ lit "else" ++ wordEdge),
    ("for", wordEdge ++ (lit "for" <|> lit "foreach") ++ blanks ++ char '('),
    ("while", wordEdge ++ lit "while" ++ blanks ++ char '('),
    ("switch", wordEdge ++ lit "switch" ++ blanks ++ char '('),
    ("case", wordEdge ++ lit "case" ++ wordEdge
      ++ next fun c => isBlank c || isQuote c || c == '('),
    ("catch", wordEdge ++ lit "catch" ++ wordEdge ++ blanks
      ++ .one fun c => c == '(' || c == '{'),
    ("ternary", notAfter (fun c => c == '<' || c == '?') ++ char '?'
      ++ notNext fun c => "?.:>=-".toList.contains c),
    ("logical", lit "&&" <|> lit "||")]

structure ComplexityRecord where
  file : String
  complexity : Nat
  lines : Nat
  perLine : Float
  breakdown : List (String × Nat)

namespace ComplexityRecord

def branchCounts (t : Text) : List (String × Nat) :=
  branchPatterns.map fun (kind, pattern) => (kind, (pattern.findAll (Subject.ofText t)).length)

/-- Branches are counted in the beginning of a file, lines in all of it. -/
def measure (path content : String) (limit : Option Int) : ComplexityRecord :=
  let breakdown := branchCounts (scannedText content limit)
  let complexity := 1 + sumOf (·.2) breakdown
  let lines := Text.countChar '\n' content + 1
  { file := path
    complexity := complexity
    lines := lines
    perLine := Binary64.roundPlaces 3 (Binary64.nearest complexity lines)
    breakdown := breakdown }

def isMeasured (skip : List String) (path content : String) : Bool :=
  !content.isEmpty && !skip.contains path && hasExtension path sourceExtensions

/-- More complex files come first, those of one complexity by path. -/
def comesBefore (a b : ComplexityRecord) : Bool :=
  b.complexity < a.complexity || (a.complexity == b.complexity && decide (a.file ≤ b.file))

def aboveThreshold (contents : Contents) (threshold : Int) (skip : List String)
    (limit : Option Int) : List ComplexityRecord :=
  let measured := (contents.sorted.filter fun (path, content) => isMeasured skip path content).map
    fun (path, content) => measure path content limit
  (measured.filter fun r => threshold < r.complexity).mergeSort comesBefore

def findAll (contents : Contents) (threshold : Except ValueFault Int) (skip : List String)
    (limit : Except ValueFault (Option Int)) : Except ValueFault (List ComplexityRecord) := do
  if contents.any fun (path, content) => isMeasured skip path content then
    let limit ← limit
    return aboveThreshold contents (← threshold) skip limit
  else return []

def toValue (r : ComplexityRecord) : Value :=
  .map [("file", .str r.file), ("complexity", .ofNat r.complexity), ("lines", .ofNat r.lines),
    ("complexity_per_line", .float r.perLine),
    ("breakdown", .map (r.breakdown.map fun (kind, count) => (kind, .ofNat count)))]

end ComplexityRecord

end Surveyor
