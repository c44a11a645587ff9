import Surveyor.Location.Basic
import Surveyor.Score.Scale

/-! # Scorecards

A score starts at ten. Commented code and large files cost points up to a common cap, unsafe
queries cost more, and typed or modern sources earn a small bonus. The scorecard is written over
any `Scale`, so that the same rules can be read in doubles and in exact fractions.
-/

namespace Surveyor

open Pattern

structure Scorecard (α : Type) where
  commentedWeight : α
  commentedCap : α
  bigFileWeight : α
  hugeFileWeight : α
  volumeCap : α
  unsafeSqlWeight : α
  unsafeSqlCap : α
  /-- How much of a file is looked at for unsafe queries. -/
  sqlSample : Value
  typedPhpWeight : α
  typedPhpCap : α
  modernScriptWeight : α
  modernScriptCap : α
  /-- How many files are looked at for a bonus, and how much of each. -/
  bonusFiles : Value
  bonusSample : Value

namespace Scorecard

variable {α : Type} [Scale α]

def standard : Scorecard α where
  commentedWeight := Scale.decimal 15 2
  commentedCap := Scale.decimal 20 1
  bigFileWeight := Scale.decimal 5 1
  hugeFileWeight := Scale.decimal 15 1
  volumeCap := Scale.decimal 40 1
  unsafeSqlWeight := Scale.decimal 8 1
  unsafeSqlCap := Scale.decimal 20 1
  sqlSample := .int 150000
  typedPhpWeight := Scale.decimal 8 2
  typedPhpCap := Scale.decimal 4 1
  modernScriptWeight := Scale.decimal 5 2
  modernScriptCap := Scale.decimal 3 1
  bonusFiles := .int 30
  bonusSample := .int 8000

/-! ## What is counted -/

/-- A path that ends in one of the extensions, in any case. -/
def extensionPattern (extensions : List String) : Pattern :=
  char '.' ++ anyOf (extensions.map caseless) ++ textEnd

def codePattern : Pattern :=
  extensionPattern ["php", "js", "jsx", "ts", "tsx", "mjs", "cjs", "vue", "svelte"]

def modernScriptPathPattern : Pattern :=
  extensionPattern ["js", "jsx", "ts", "tsx", "mjs", "cjs"]

def queryPattern : Pattern := wordEdge ++ caseless "mysql_query" ++ blanks ++ char '('

def preparedPatterns : List Pattern :=
  [caseless "->prepare(", caseless "bindParam", caseless "bindValue",
    wordEdge ++ caseless "prepare" ++ blanks ++ char '(',
    char '?' ++ blanks ++ char ',' ++ blanks ++ char '?']

def typedParameterPattern : Pattern :=
  char '(' ++ blanks
    ++ words ["string", "int", "float", "bool", "array", "object", "callable", "iterable", "mixed"]
    ++ blanks1 ++ char '$'

def isGrave (c : Char) : Bool := c.toNat == 0x60

def modernScriptPatterns : List Pattern :=
  [wordEdge ++ lit "const" ++ blanks1 ++ word ++ blanks ++ char '=',
    wordEdge ++ lit "let" ++ blanks1 ++ word ++ blanks ++ char '=',
    lit "=>" ++ blanks ++ char '{',
    .one isGrave ++ .greedy (!isGrave ·) 0 ++ char '$' ++ char '{']

/-- Sizes above which a file is big and huge. -/
def bigFileBytes : Int := 100 * 1024

def hugeFileBytes : Int := 500 * 1024

/-- The numbers that decide a score. -/
structure Counts where
  commented : Nat
  huge : Nat
  big : Nat
  unsafeSql : Nat := 0
  typedPhp : Nat := 0
  modernScript : Nat := 0
  deriving DecidableEq, Repr

/-- A text with a raw query and no prepared one. -/
def hasUnsafeSql (s : Subject) : Bool := queryPattern.occursIn s && !anyOccurs preparedPatterns s

def isTypedPhp (path : String) (s : Subject) : Bool :=
  isPhpPath path && typedParameterPattern.occursIn s

def isModernScript (path : String) (s : Subject) : Bool :=
  !isPhpPath path && modernScriptPathPattern.occursIn (Subject.ofString path)
    && anyOccurs modernScriptPatterns s

def beginning (size : Value) (content : String) : Except ValueFault Subject := do
  return Subject.ofText (scannedText content (← size.limit))

def isCommentedCode (issue : Value) : Except ValueFault Bool := do
  return (← issue.field "kind").str? == some "commented_code"

def codeSize? (file : Value) : Except ValueFault (Option Int) := do
  match ← file.entry "path" with
  | .str path =>
    if codePattern.occursIn (Subject.ofString path) then
      return some (← ((← file.field "size").orElse (.int 0)).whole)
    else return none
  | other => .error (other.notOfKind "is not a string")

def phpBeginnings (card : Scorecard α) (contents : Contents) : Except ValueFault (List Subject) :=
  ((contents.filled []).filter fun (path, _) => isPhpPath path).mapM fun (_, content) =>
    beginning card.sqlSample content

def firstMembers (paths limit : Value) : Except ValueFault (List Value) := do
  let limit ← limit.limit
  let members ← match paths with
    | .map _ | .view _ | .set _ => .error (paths.notOfKind "is not subscriptable")
    | _ => paths.members
  match limit with
  | none => return members
  | some n => return members.take (Text.clampIndex members.length n)

/-- The path and the beginning of a file that is looked at for a bonus, if it has something in
it. -/
def bonusSource? (card : Scorecard α) (contents : Contents) (path : Value) :
    Except ValueFault (Option (String × Subject)) := do
  match path.str?, ← contents.filledAt? path with
  | some name, some content => return some (name, ← beginning card.bonusSample content)
  | _, _ => return none

def bonusSources (card : Scorecard α) (outlined : Value) (contents : Contents) :
    Except ValueFault (List (String × Subject)) := do
  let sources ← (← firstMembers outlined card.bonusFiles).mapM (card.bonusSource? contents)
  return sources.filterMap id

def countVolume (issues files : Value) : Except ValueFault Counts := do
  let commented ← (← issues.members).mapM isCommentedCode
  let sizes := (← (← files.members).mapM codeSize?).filterMap id
  return {
    commented := commented.countP id
    huge := sizes.countP (hugeFileBytes < ·)
    big := sizes.countP fun size => bigFileBytes < size && size ≤ hugeFileBytes }

def countUnsafe (card : Scorecard α) (contents : Contents) (c : Counts) :
    Except ValueFault Counts := do
  return { c with unsafeSql := (← card.phpBeginnings contents).countP hasUnsafeSql }

def countBonus (card : Scorecard α) (outlined : Value) (contents : Contents) (c : Counts) :
    Except ValueFault Counts := do
  let sources ← card.bonusSources outlined contents
  return { c with
    typedPhp := sources.countP fun (path, s) => isTypedPhp path s
    modernScript := sources.countP fun (path, s) => isModernScript path s }

def count (card : Scorecard α) (issues files outlined : Value) (contents : Contents) :
    Except ValueFault Counts := do
  card.countBonus outlined contents (← card.countUnsafe contents (← countVolume issues files))

/-! ## What the counts are worth -/

open Scale

/-- The weight added once for every count, starting from zero. -/
def addTimes (weight : α) : Nat → α → α
  | 0, total => total
  | n + 1, total => addTimes weight n (add total weight)

def sqlPenalty (card : Scorecard α) (c : Counts) : α :=
  least (addTimes card.unsafeSqlWeight c.unsafeSql (decimal 0 1)) card.unsafeSqlCap

/-- Commented code up to its cap, with large files up to the common one. -/
def volumeDeduction (card : Scorecard α) (c : Counts) : α :=
  let commented := least (mul (ofNat c.commented) card.commentedWeight) card.commentedCap
  let files := add (mul (ofNat c.huge) card.hugeFileWeight) (mul (ofNat c.big) card.bigFileWeight)
  least (add commented files) card.volumeCap

def bonus (card : Scorecard α) (c : Counts) : α :=
  add (least card.typedPhpCap (mul (ofNat c.typedPhp) card.typedPhpWeight))
    (least card.modernScriptCap (mul (ofNat c.modernScript) card.modernScriptWeight))

/-- All deductions, at most ten. -/
def deduction (card : Scorecard α) (c : Counts) : α :=
  least (add (card.volumeDeduction c) (card.sqlPenalty c)) (decimal 100 1)

def score (card : Scorecard α) (c : Counts) : α :=
  let ten : α := decimal 100 1
  round 1 (least ten (add (greatest (decimal 0 1) (sub ten (card.deduction c))) (card.bonus c)))

/-- The messages with the tenths of a point from which on they are given. -/
def messages : List (Nat × String) :=
  [(95, "Excellent, keep it up!"), (85, "Great code"), (70, "Good work"),
    (55, "Not bad, room to grow"), (40, "Needs attention"),
    (25, "Many problems, time to clean up")]

/-- The message of a score: that of the highest mark it reaches. -/
def message (s : α) : String :=
  match messages.find? fun (tenths, _) => atLeast s (decimal tenths 1) with
  | some (_, text) => text
  | none => "Make it work first"

end Scorecard

structure Assessment where
  score : Quantity
  message : String
  counts : Scorecard.Counts
  sqlPenalty : Quantity
  bonus : Quantity

namespace Assessment

def ofCounts (card : Scorecard Quantity) (c : Scorecard.Counts) : Assessment :=
  let score := card.score c
  ⟨score, Scorecard.message score, c, card.sqlPenalty c, card.bonus c⟩

/-- The published form, unless the score is at fault. -/
def toValue (a : Assessment) : Except ValueFault Value := do
  let counted := fun (key : String) (n : Nat) =>
    if n == 0 then [] else [Value.map [("key", .str key), ("count", .ofNat n)]]
  let deductions :=
    counted "commented_code" a.counts.commented ++ counted "large_huge" a.counts.huge
      ++ counted "large_big" a.counts.big
      ++ (if Scale.isZero a.sqlPenalty then [] else [Value.map [("key", .str "unsafe_sql")]])
  let score ← a.score.toValue
  let penalty ← (Scale.round 2 a.sqlPenalty).toValue
  let bonus ← (Scale.round 2 a.bonus).toValue
  return .map [("score", score), ("message", .str a.message), ("deductions", .list deductions),
    ("factors", .map [("commented_code", .ofNat a.counts.commented),
      ("large_files", .ofNat (a.counts.huge + a.counts.big)), ("unsafe_sql_penalty", penalty),
      ("bonus_applied", bonus)])]

/-- The published assessment of what a scorecard counts. What is counted is weighed before the next
is counted, so that the first fault is the one that is told. -/
def evaluate (card : Scorecard Quantity) (issues files outlined : Value) (contents : Contents) :
    Except ValueFault Value := do
  let volume ← Scorecard.countVolume issues files
  (card.volumeDeduction volume).check
  let deducted ← card.countUnsafe contents volume
  (card.deduction deducted).check
  (ofCounts card (← card.countBonus outlined contents deducted)).toValue

end Assessment

def scoreMessage (score : Value) : Except ValueFault String :=
  match Quantity.ofValue score with
  | .odd => .error Quantity.notANumber
  | q => .ok (Scorecard.message q)

def Scorecard.ofWeights (weights : Value) : Except ValueFault (Scorecard Quantity) := do
  let .map entries := weights | .error (weights.notOfKind "is not a mapping")
  let usual : Scorecard Quantity := Scorecard.standard
  entries.foldlM
    (fun card (key, v) =>
      let q := Quantity.ofValue v
      match key with
      | "commented_weight" => .ok { card with commentedWeight := q }
      | "commented_cap" => .ok { card with commentedCap := q }
      | "big_file_weight" => .ok { card with bigFileWeight := q }
      | "huge_file_weight" => .ok { card with hugeFileWeight := q }
      | "volume_cap" => .ok { card with volumeCap := q }
      | "unsafe_sql_weight" => .ok { card with unsafeSqlWeight := q }
      | "unsafe_sql_cap" => .ok { card with unsafeSqlCap := q }
      | "sql_sample_chars" => .ok { card with sqlSample := v }
      | "typed_php_weight" => .ok { card with typedPhpWeight := q }
      | "typed_php_cap" => .ok { card with typedPhpCap := q }
      | "modern_js_weight" => .ok { card with modernScriptWeight := q }
      | "modern_js_cap" => .ok { card with modernScriptCap := q }
      | "bonus_files" => .ok { card with bonusFiles := v }
      | "bonus_sample_chars" => .ok { card with bonusSample := v }
      | _ => .error (.wrongKind ("got an unexpected keyword argument " ++ quoted key)))
    usual

end Surveyor
