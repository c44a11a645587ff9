import Surveyor.Json.Relaxed
import Surveyor.Proofs.Text.Remainder

/-! # Tokens of JSON and what may stand between them

A document is a sequence of tokens (`Token`) with blanks between them. `Relaxed` relates a document to
the texts that come from it by inserting blanks, comments and trailing commas between its tokens; it
goes over both texts at once and keeps whether the last token ended an element, after which a trailing
comma may stand.
-/

namespace Surveyor.Json

/-! ## Tokens -/

def isWordChar (c : Char) : Bool := c.isAlphanum || c == '+' || c == '-' || c == '.'

def isSign (c : Char) : Bool :=
  c == '{' || c == '}' || c == '[' || c == ']' || c == ',' || c == ':'

def isCloser (c : Char) : Bool := c == '}' || c == ']'

def startsToken (c : Char) : Bool := isSign c || c == '"' || isWordChar c

/-- A string literal on one line, after its opening quote. -/
inductive LiteralTail : List Char → Prop
  | close : LiteralTail ['"']
  | plain {c : Char} {rest : List Char} (notQuote : c ≠ '"') (notEscape : c ≠ '\\')
      (inLine : c ≠ '\n') (tail : LiteralTail rest) : LiteralTail (c :: rest)
  | escape {c : Char} {rest : List Char} (inLine : c ≠ '\n') (tail : LiteralTail rest) :
      LiteralTail ('\\' :: c :: rest)

/-- A token and what follows it. A word goes on as long as there are characters of words. -/
inductive Token : List Char → List Char → Prop
  | sign {c : Char} {after : List Char} (isSign : isSign c = true) : Token [c] after
  | literal {tail after : List Char} (closed : LiteralTail tail) : Token ('"' :: tail) after
  | word {letters after : List Char} (nonempty : letters ≠ [])
      (all : ∀ c ∈ letters, isWordChar c = true) (maximal : after.head?.any isWordChar = false) :
      Token letters after

/-- Does a token end an element of an array, or a key or value of an object? -/
def endsElement (token : List Char) : Bool :=
  !([['{'], ['['], [','], [':']] : List (List Char)).contains token

/-- Is a closing bracket the next character that is not blank? -/
def closerNext (chars : List Char) : Bool := (chars.dropWhile isJsonBlank).head?.any isCloser

/-! ## Relaxed documents -/

/-- What may be inserted between tokens, and what follows it: a blank, and with comments those up to
the end of the line and those in blocks. -/
inductive Filler (comments : Bool) : List Char → List Char → Prop
  | blank {c : Char} {after : List Char} (isBlank : isJsonBlank c = true) : Filler comments [c] after
  | line {body after : List Char} (allowed : comments = true) (inLine : '\n' ∉ body)
      (ends : after = [] ∨ ∃ rest, after = '\n' :: rest) :
      Filler comments ('/' :: '/' :: body) after
  | block {body after : List Char} (allowed : comments = true) (noEnd : ¬ ['*', '/'] <:+: body) :
      Filler comments ('/' :: '*' :: (body ++ ['*', '/'])) after

/-- A text comes from a document by inserting fillers and trailing commas, where the document goes on
after a token that may have ended an element. -/
inductive Relaxed (comments : Bool) : Bool → List Char → List Char → Prop
  | done {ended : Bool} : Relaxed comments ended [] []
  | filler {ended : Bool} {piece chars text : List Char} (inserted : Filler comments piece text)
      (rest : Relaxed comments ended chars text) : Relaxed comments ended chars (piece ++ text)
  | comma {chars text : List Char} (last : closerNext chars = true)
      (rest : Relaxed comments false chars text) : Relaxed comments true chars (',' :: text)
  | blank {ended : Bool} {c : Char} {chars text : List Char} (isBlank : isJsonBlank c = true)
      (rest : Relaxed comments ended chars text) : Relaxed comments ended (c :: chars) (c :: text)
  | token {ended : Bool} {token chars text : List Char} (isToken : Token token chars)
      (rest : Relaxed comments (endsElement token) chars text) :
      Relaxed comments ended (token ++ chars) (token ++ text)

/-! ## First characters -/

theorem Token.exists_cons {token after : List Char} (isToken : Token token after) :
    ∃ c rest, token = c :: rest ∧ startsToken c = true := by
  cases isToken with
  | sign isSign => exact ⟨_, _, rfl, by simp [startsToken, isSign]⟩
  | literal => exact ⟨_, _, rfl, rfl⟩
  | word nonempty all =>
    obtain ⟨c, rest, rfl⟩ := List.exists_cons_of_ne_nil nonempty
    exact ⟨c, rest, rfl, by simp [startsToken, all c List.mem_cons_self]⟩

/-- Characters are told apart by what holds of one of them only. -/
theorem ne_of_holds {p : Char → Bool} {c d : Char} (holds : p c = true) (fails : p d = false) :
    c ≠ d := by
  rintro rfl
  rw [holds] at fails
  cases fails

theorem isBlank_of_isJsonBlank {c : Char} (blank : isJsonBlank c = true) : isBlank c = true := by
  simp only [isJsonBlank, Bool.or_eq_true, beq_iff_eq] at blank
  rcases blank with ((rfl | rfl) | rfl) | rfl <;> rfl

theorem toNat_of_isAlphanum {c : Char} (letter : c.isAlphanum = true) :
    48 ≤ c.toNat ∧ c.toNat ≤ 122 := by
  have ranges : (decide (c.val ≥ 'A'.val ∧ c.val ≤ 'Z'.val)
      || decide (c.val ≥ 'a'.val) && decide (c.val ≤ 'z'.val)
      || decide (c.val ≥ '0'.val) && decide (c.val ≤ '9'.val)) = true := letter
  simp only [Bool.or_eq_true, Bool.and_eq_true, decide_eq_true_eq, UInt32.le_iff_toNat_le,
    ge_iff_le] at ranges
  have capital : 'A'.val.toNat = 65 ∧ 'Z'.val.toNat = 90 := by decide
  have small : 'a'.val.toNat = 97 ∧ 'z'.val.toNat = 122 := by decide
  have digit : '0'.val.toNat = 48 ∧ '9'.val.toNat = 57 := by decide
  have code : c.toNat = c.val.toNat := rfl
  omega

/-- Tokens start with visible characters. -/
theorem toNat_of_startsToken {c : Char} (starts : startsToken c = true) :
    33 ≤ c.toNat ∧ c.toNat ≤ 125 := by
  simp only [startsToken, isSign, isWordChar, Bool.or_eq_true, beq_iff_eq] at starts
  rcases starts with (((((((rfl | rfl) | rfl) | rfl) | rfl) | rfl) | rfl) | ((letter | rfl) | rfl) | rfl)
  all_goals first
    | decide
    | have := toNat_of_isAlphanum letter; omega

theorem isBlank_of_startsToken {c : Char} (starts : startsToken c = true) : isBlank c = false := by
  have visible := toNat_of_startsToken starts
  simp only [isBlank, Bool.or_eq_false_iff, Bool.and_eq_false_iff, decide_eq_false_iff_not,
    beq_eq_false_iff_ne]
  omega

theorem isJsonBlank_of_startsToken {c : Char} (starts : startsToken c = true) :
    isJsonBlank c = false := by
  by_cases blank : isJsonBlank c = true
  · exact absurd (isBlank_of_isJsonBlank blank) (by simp [isBlank_of_startsToken starts])
  · simpa using blank

end Surveyor.Json
