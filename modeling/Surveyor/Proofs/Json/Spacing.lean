import Mathlib.Data.List.TakeWhile
import Surveyor.Proofs.Json.Reads
import Surveyor.Proofs.Json.Stripping

/-! # Reading a text with the same tokens

A text with the tokens of a document is read as the same value (`readText_of_settled`): whatever step
the reader takes in the document it takes in the text as well, from the next character that is not
blank, and what is left of the two has the same tokens again (`Reads.settled`). A comma of the document
that is missing in the text would stand before a closing bracket, where the reader of the document
does not get to.
-/

namespace Surveyor.Json

variable {t u : Text} {i j k : Nat}

/-! ## Tokens are unique -/

theorem LiteralTail.unique {first second after after' : List Char} (closed : LiteralTail first)
    (closed' : LiteralTail second) (same : first ++ after = second ++ after') : first = second := by
  induction closed generalizing second with
  | close =>
    cases closed' with
    | close => rfl
    | plain notQuote => exact absurd (List.cons.inj same).1.symm notQuote
    | escape => cases (List.cons.inj same).1
  | plain notQuote notEscape inLine tail inductionHypothesis =>
    cases closed' with
    | close => exact absurd (List.cons.inj same).1 notQuote
    | plain _ _ _ tail' =>
      obtain ⟨rfl, rest⟩ := List.cons.inj same
      rw [inductionHypothesis tail' rest]
    | escape => exact absurd (List.cons.inj same).1 notEscape
  | escape inLine tail inductionHypothesis =>
    cases closed' with
    | close => cases (List.cons.inj same).1
    | plain _ notEscape => exact absurd (List.cons.inj same).1.symm notEscape
    | escape _ tail' =>
      simp only [List.cons_append, List.cons.injEq, true_and] at same
      obtain ⟨rfl, rest⟩ := same
      rw [inductionHypothesis tail' rest]

theorem not_isSign_of_isWordChar {c : Char} (letter : isWordChar c = true) : isSign c = false := by
  simp only [isSign, Bool.or_eq_false_iff, beq_eq_false_iff_ne]
  exact ⟨⟨⟨⟨⟨ne_of_holds letter (by decide), ne_of_holds letter (by decide)⟩,
    ne_of_holds letter (by decide)⟩, ne_of_holds letter (by decide)⟩,
    ne_of_holds letter (by decide)⟩, ne_of_holds letter (by decide)⟩

/-- A token that starts like a word is one. -/
theorem Token.takeWhile {token after : List Char} (isToken : Token token after) {c : Char}
    (first : (token ++ after).head? = some c) (letter : isWordChar c = true) :
    (token ++ after).takeWhile isWordChar = token := by
  cases isToken with
  | sign isSign =>
    cases first
    rw [not_isSign_of_isWordChar letter] at isSign
    cases isSign
  | literal =>
    cases first
    exact absurd letter (by decide)
  | word _ all maximal => rw [Text.takeWhile_append_of_stops maximal, List.takeWhile_eq_self_iff.mpr all]

/-- The next token is determined by what is left. -/
theorem Token.unique {first second after after' : List Char} (token : Token first after)
    (token' : Token second after') (same : first ++ after = second ++ after') : first = second := by
  -- If one of the two is a word, the other one starts like a word.
  have ofWord : ∀ {letters rest token rest' : List Char}, Token letters rest → Token token rest' →
      letters ++ rest = token ++ rest' → (∃ c ∈ letters.head?, isWordChar c = true) →
      letters = token := by
    intro letters rest token rest' isLetters isToken same head
    obtain ⟨c, here, letter⟩ := head
    have first : (letters ++ rest).head? = some c := by rw [List.head?_append, here]; rfl
    rw [← isLetters.takeWhile first letter, ← isToken.takeWhile (same ▸ first) letter, same]
  cases token with
  | word nonempty all maximal =>
    obtain ⟨c, rest, rfl⟩ := List.exists_cons_of_ne_nil nonempty
    exact ofWord (.word nonempty all maximal) token' same ⟨c, rfl, all c List.mem_cons_self⟩
  | sign isSign =>
    cases token' with
    | word nonempty all maximal =>
      obtain ⟨c, rest, rfl⟩ := List.exists_cons_of_ne_nil nonempty
      exact (ofWord (.word nonempty all maximal) (.sign isSign) same.symm
        ⟨c, rfl, all c List.mem_cons_self⟩).symm
    | sign => rw [(List.cons.inj same).1]
    | literal =>
      obtain ⟨rfl, -⟩ := List.cons.inj same
      cases isSign
  | literal closed =>
    cases token' with
    | word nonempty all maximal =>
      obtain ⟨c, rest, rfl⟩ := List.exists_cons_of_ne_nil nonempty
      exact (ofWord (.word nonempty all maximal) (.literal closed) same.symm
        ⟨c, rfl, all c List.mem_cons_self⟩).symm
    | sign isSign =>
      obtain ⟨rfl, -⟩ := List.cons.inj same
      cases isSign
    | literal closed' => rw [closed.unique closed' (List.cons.inj same).2]

/-! ## Skipping blanks -/

theorem drop_skipBlanks {fuel : Nat} (enough : t.size ≤ i + fuel) :
    t.toList.drop (skipBlanks t fuel i) = (t.toList.drop i).dropWhile isJsonBlank := by
  induction fuel generalizing i with
  | zero =>
    have ended : t.toList.drop i = [] := List.drop_eq_nil_of_le (by simpa using enough)
    simp [skipBlanks, ended]
  | succ fuel inductionHypothesis =>
    rw [skipBlanks]
    cases here : t[i]? with
    | none =>
      have beyond := Array.getElem?_eq_none_iff.mp here
      have ended : t.toList.drop i = [] := List.drop_eq_nil_of_le (by simpa using beyond)
      simp [ended]
    | some c =>
      rw [Text.drop_eq_cons here]
      by_cases blank : isJsonBlank c = true
      · simp only [blank, if_true, List.dropWhile_cons_of_pos]
        exact inductionHypothesis (by omega)
      · simp only [blank, Bool.false_eq_true, if_false]
        rw [List.dropWhile_cons_of_neg blank, Text.drop_eq_cons here]

theorem drop_skip (t : Text) (i : Nat) :
    t.toList.drop (skip t i) = (t.toList.drop i).dropWhile isJsonBlank :=
  drop_skipBlanks (by omega)

theorem closerNext_drop (t : Text) (i : Nat) :
    closerNext (t.toList.drop i) = t[skip t i]?.any isCloser := by
  rw [closerNext, ← drop_skip, ← Text.getElem?_eq_head?]

/-- What stands right after a word is no word if what follows after blanks is none. -/
theorem boundary_of_skip (noWord : t[skip t i]?.any isWordChar = false) :
    (t.toList.drop i).head?.any isWordChar = false := by
  rw [Text.getElem?_eq_head?, drop_skip] at noWord
  cases left : t.toList.drop i with
  | nil => rfl
  | cons c rest =>
    by_cases letter : isWordChar c = true
    · have starts : startsToken c = true := by simp [startsToken, letter]
      rw [left, List.dropWhile_cons_of_neg (by simp [isJsonBlank_of_startsToken starts])] at noWord
      simpa using noWord
    · simpa using letter

/-! ## Settled texts -/

namespace Settled

variable {chars text : List Char}

theorem skip (settled : Settled chars text) : Settled (chars.dropWhile isJsonBlank) text := by
  induction settled with
  | done => exact .done
  | inserted blank rest inductionHypothesis => exact .inserted blank inductionHypothesis
  | blank blank rest inductionHypothesis =>
    rw [List.dropWhile_cons_of_pos blank]
    exact .inserted blank inductionHypothesis
  | token isToken rest =>
    obtain ⟨c, others, rfl, starts⟩ := isToken.exists_cons
    rw [List.cons_append, List.dropWhile_cons_of_neg (by simp [isJsonBlank_of_startsToken starts]),
      ← List.cons_append]
    exact .token isToken rest
  | dropped last rest =>
    rw [List.dropWhile_cons_of_neg (by decide)]
    exact .dropped last rest

theorem head?_startsToken (settled : Settled chars text) {c : Char} (here : text.head? = some c) :
    isJsonBlank c = true ∨ startsToken c = true := by
  induction settled with
  | done => cases here
  | inserted blank | blank blank =>
    cases here
    exact .inl blank
  | token isToken =>
    obtain ⟨d, others, rfl, starts⟩ := isToken.exists_cons
    cases here
    exact .inr starts
  | dropped last rest inductionHypothesis => exact inductionHypothesis here

/-- A text goes on with a word only where the document does. -/
theorem boundary (settled : Settled chars text) (noWord : chars.head?.any isWordChar = false) :
    text.head?.any isWordChar = false := by
  have noBlank : ∀ c, isJsonBlank c = true → isWordChar c = false := by
    intro c blank
    by_cases letter : isWordChar c = true
    · have starts : startsToken c = true := by simp [startsToken, letter]
      rw [isJsonBlank_of_startsToken starts] at blank
      cases blank
    · simpa using letter
  induction settled with
  | done => rfl
  | inserted blank | blank blank => simpa using noBlank _ blank
  | token isToken =>
    obtain ⟨c, others, rfl, -⟩ := isToken.exists_cons
    exact noWord
  | @dropped chars _ last rest inductionHypothesis =>
    apply inductionHypothesis
    -- The comma that is left out stands in front of a bracket, and so in front of no word.
    rw [closerNext] at last
    cases chars with
    | nil => rfl
    | cons c chars =>
      by_cases blank : isJsonBlank c = true
      · simpa using noBlank c blank
      · rw [List.dropWhile_cons_of_neg blank] at last
        have closer : c = '}' ∨ c = ']' := by simpa [isCloser] using last
        rcases closer with rfl | rfl
        · rfl
        · rfl

/-- The next token of the document is the next one of the text. -/
theorem next (settled : Settled chars text) {token rest : List Char} (isToken : Token token rest)
    (spelled : chars = token ++ rest) (kept : token = [','] → closerNext rest = false) :
    ∃ text', text.dropWhile isJsonBlank = token ++ text' ∧ Settled rest text' := by
  obtain ⟨c, others, start, starts⟩ := isToken.exists_cons
  induction settled with
  | done =>
    rw [start] at spelled
    cases spelled
  | inserted blank _ inductionHypothesis =>
    rw [List.dropWhile_cons_of_pos blank]
    exact inductionHypothesis spelled
  | blank blank =>
    rw [start] at spelled
    obtain ⟨rfl, -⟩ := List.cons.inj spelled
    rw [isJsonBlank_of_startsToken starts] at blank
    cases blank
  | @token token' _ text' isToken' rest' =>
    obtain rfl := isToken'.unique isToken spelled
    obtain rfl := List.append_cancel_left spelled
    refine ⟨text', ?_, rest'⟩
    rw [start, List.cons_append, List.dropWhile_cons_of_neg (by simp [isJsonBlank_of_startsToken starts])]
  | @dropped chars _ last =>
    -- Of the commas of the document only those before a closing bracket may be missing.
    have isComma : Token [','] chars := .sign (by decide)
    obtain rfl := isComma.unique isToken spelled
    obtain rfl := List.append_cancel_left (show [','] ++ chars = [','] ++ rest from spelled)
    rw [kept rfl] at last
    cases last

/-- Where the document ends the text has only blanks left. -/
theorem dropWhile_eq_nil (settled : Settled [] text) : text.dropWhile isJsonBlank = [] := by
  generalize nothing : ([] : List Char) = chars at settled
  induction settled with
  | done => rfl
  | inserted blank rest inductionHypothesis =>
    rw [List.dropWhile_cons_of_pos blank]
    exact inductionHypothesis nothing
  | blank | dropped => cases nothing
  | token isToken =>
    obtain ⟨c, others, rfl, -⟩ := isToken.exists_cons
    cases nothing

end Settled

/-! ## Reading side by side -/

/-- A sign at which the document goes on is next in the text. -/
theorem sign_of_settled {c : Char} (here : t[i]? = some c) (sign : isSign c = true)
    (kept : c = ',' → closerNext (t.toList.drop (i + 1)) = false)
    (settled : Settled (t.toList.drop i) (u.toList.drop k)) :
    u[skip u k]? = some c ∧ Settled (t.toList.drop (i + 1)) (u.toList.drop (skip u k + 1)) := by
  obtain ⟨text, spelled, rest⟩ := settled.next (Token.sign sign) (Text.drop_eq_cons here)
    (fun isComma => kept (by simpa using isComma))
  rw [← drop_skip] at spelled
  refine ⟨Text.getElem?_of_drop spelled, ?_⟩
  rw [Text.drop_succ spelled]
  exact rest

theorem otherSign_of_settled {c : Char} (here : t[i]? = some c) (sign : isSign c = true)
    (other : c ≠ ',') (settled : Settled (t.toList.drop i) (u.toList.drop k)) :
    u[skip u k]? = some c ∧ Settled (t.toList.drop (i + 1)) (u.toList.drop (skip u k + 1)) :=
  sign_of_settled here sign (fun isComma => absurd isComma other) settled

theorem settled_skip (settled : Settled (t.toList.drop i) (u.toList.drop k)) :
    Settled (t.toList.drop (skip t i)) (u.toList.drop k) := by
  rw [drop_skip]
  exact settled.skip

/-- A string that is read in the document is next in the text. -/
theorem string_of_settled {s : String} (quote : t[i]? = some '"') (read : stringAt t i = .ok (s, j))
    (settled : Settled (t.toList.drop i) (u.toList.drop k)) :
    u[skip u k]? = some '"' ∧ ∃ l, stringAt u (skip u k) = .ok (s, l)
      ∧ Settled (t.toList.drop j) (u.toList.drop l) := by
  obtain ⟨tail, closed, spelled, alike⟩ := stringAt_literal quote read
  obtain ⟨text, spelled', rest⟩ := settled.next (.literal closed) spelled
    (fun isComma => absurd (List.cons.inj isComma).1 (by decide))
  rw [← drop_skip] at spelled'
  refine ⟨Text.getElem?_of_drop spelled', _, alike u _ _ spelled', ?_⟩
  rw [Text.drop_of_append spelled']
  exact rest

theorem boundary_of_sign {c : Char} (here : t[skip t i]? = some c) (sign : isSign c = true) :
    (t.toList.drop i).head?.any isWordChar = false := by
  apply boundary_of_skip
  rw [here, Option.any_some]
  by_cases letter : isWordChar c = true
  · rw [not_isSign_of_isWordChar letter] at sign
    cases sign
  · simpa using letter

/-- Behind a comma that is read no collection is closed. -/
theorem Reads.not_closerNext {part : Part} (reads : Reads t part (skip t i) j) :
    closerNext (t.toList.drop i) = false := by
  rw [closerNext_drop]
  cases here : t[skip t i]? with
  | none => rfl
  | some c =>
    by_cases closer : isCloser c = true
    · have unclosed := reads.not_closed closer
      rw [here] at unclosed
      simp at unclosed
    · simpa using closer

/-- What is read in the document is read in the text. -/
theorem Reads.settled {part : Part} (reads : Reads t part i j)
    (boundary : (t.toList.drop j).head?.any isWordChar = false)
    (settled : Settled (t.toList.drop i) (u.toList.drop k)) :
    ∃ l, Reads u part (skip u k) l ∧ Settled (t.toList.drop j) (u.toList.drop l) := by
  -- Induction on the steps in the document; the invariant is that the two texts are settled at `i` and
  -- `k`, and every case hands it on from one step to the next.
  induction reads generalizing k with
  | string quote read =>
    obtain ⟨quote', l, read', rest⟩ := string_of_settled quote read settled
    exact ⟨l, .string quote' read', rest⟩
  | scalar here plain read =>
    obtain ⟨letters, nonempty, all, spelled, alike⟩ := scalarAt_word read boundary
    have notComma : letters ≠ [','] := by
      rintro rfl
      exact absurd (all ',' List.mem_cons_self) (by decide)
    obtain ⟨text, spelled', rest⟩ := settled.next (.word nonempty all boundary) spelled
      (fun isComma => absurd isComma notComma)
    rw [← drop_skip] at spelled'
    obtain ⟨c, letters, rfl⟩ := List.exists_cons_of_ne_nil nonempty
    have letter := all c List.mem_cons_self
    have plain' : opensValue c = false := by
      simp only [opensValue, Bool.or_eq_false_iff, beq_eq_false_iff_ne]
      exact ⟨⟨ne_of_holds letter (by decide), ne_of_holds letter (by decide)⟩,
        ne_of_holds letter (by decide)⟩
    refine ⟨_, .scalar (Text.getElem?_of_drop spelled') plain'
      (alike u _ _ spelled' (rest.boundary boundary)), ?_⟩
    rw [Text.drop_of_append spelled']
    exact rest
  | emptyObject brace closes =>
    obtain ⟨brace', inside⟩ := otherSign_of_settled brace (by decide) (by decide) settled
    obtain ⟨closes', rest⟩ := otherSign_of_settled closes (by decide) (by decide) (settled_skip inside)
    exact ⟨_, .emptyObject brace' closes', rest⟩
  | object brace entries inductionHypothesis =>
    obtain ⟨brace', inside⟩ := otherSign_of_settled brace (by decide) (by decide) settled
    obtain ⟨l, entries', rest⟩ := inductionHypothesis boundary (settled_skip inside)
    exact ⟨l, .object brace' entries', rest⟩
  | emptyArray bracket closes =>
    obtain ⟨bracket', inside⟩ := otherSign_of_settled bracket (by decide) (by decide) settled
    obtain ⟨closes', rest⟩ := otherSign_of_settled closes (by decide) (by decide) (settled_skip inside)
    exact ⟨_, .emptyArray bracket' closes', rest⟩
  | array bracket items inductionHypothesis =>
    obtain ⟨bracket', inside⟩ := otherSign_of_settled bracket (by decide) (by decide) settled
    obtain ⟨l, items', rest⟩ := inductionHypothesis boundary (settled_skip inside)
    exact ⟨l, .array bracket' items', rest⟩
  | lastItem item closes inductionHypothesis =>
    obtain ⟨after, item', behind⟩ := inductionHypothesis (boundary_of_sign closes (by decide)) settled
    obtain ⟨closes', rest⟩ := otherSign_of_settled closes (by decide) (by decide) (settled_skip behind)
    exact ⟨_, .lastItem item' closes', rest⟩
  | nextItem item comma rest ofItem ofRest =>
    obtain ⟨after, item', behind⟩ := ofItem (boundary_of_sign comma (by decide)) settled
    obtain ⟨comma', further⟩ := sign_of_settled comma (by decide) (fun _ => rest.not_closerNext)
      (settled_skip behind)
    obtain ⟨l, rest', behindRest⟩ := ofRest boundary (settled_skip further)
    exact ⟨l, .nextItem item' comma' rest', behindRest⟩
  | lastEntry quote readKey colon value closes inductionHypothesis =>
    obtain ⟨quote', afterKey, readKey', behindKey⟩ := string_of_settled quote readKey settled
    obtain ⟨colon', behindColon⟩ := otherSign_of_settled colon (by decide) (by decide)
      (settled_skip behindKey)
    obtain ⟨after, value', behind⟩ := inductionHypothesis (boundary_of_sign closes (by decide))
      (settled_skip behindColon)
    obtain ⟨closes', rest⟩ := otherSign_of_settled closes (by decide) (by decide) (settled_skip behind)
    exact ⟨_, .lastEntry quote' readKey' colon' value' closes', rest⟩
  | nextEntry quote readKey colon value comma rest ofValue ofRest =>
    obtain ⟨quote', afterKey, readKey', behindKey⟩ := string_of_settled quote readKey settled
    obtain ⟨colon', behindColon⟩ := otherSign_of_settled colon (by decide) (by decide)
      (settled_skip behindKey)
    obtain ⟨after, value', behind⟩ := ofValue (boundary_of_sign comma (by decide))
      (settled_skip behindColon)
    obtain ⟨comma', further⟩ := sign_of_settled comma (by decide) (fun _ => rest.not_closerNext)
      (settled_skip behind)
    obtain ⟨l, rest', behindRest⟩ := ofRest boundary (settled_skip further)
    exact ⟨l, .nextEntry quote' readKey' colon' value' comma' rest', behindRest⟩

theorem skipBlanks_le {fuel : Nat} (inText : i ≤ t.size) : skipBlanks t fuel i ≤ t.size := by
  induction fuel generalizing i with
  | zero => exact inText
  | succ fuel inductionHypothesis =>
    rw [skipBlanks]
    split
    · next c here =>
      split
      · exact inductionHypothesis (lt_size here)
      · exact inText
    · exact inText

/-- A text with the tokens of a document has its value. -/
theorem readText_of_settled {v : Value} (settled : Settled t.toList u.toList) (read : readText t = .ok v) :
    readText u = .ok v := by
  obtain ⟨-, j, reads, atEnd⟩ := readText_eq_ok_iff.mp read
  have ended : t.toList.drop (skip t j) = [] := List.drop_eq_nil_of_le (by simp [atEnd])
  have boundary := boundary_of_skip (show t[skip t j]?.any isWordChar = false by
    rw [Text.getElem?_eq_head?, ended]; rfl)
  have start : Settled (t.toList.drop (skip t 0)) (u.toList.drop 0) := settled_skip settled
  obtain ⟨l, reads', rest⟩ := reads.settled boundary start
  refine readText_eq_ok_iff.mpr ⟨?_, l, reads', ?_⟩
  · intro mark
    rw [Text.getElem?_eq_head?] at mark
    rcases settled.head?_startsToken mark with blank | starts
    · cases blank
    · cases starts
  · have blanks := (ended ▸ settled_skip rest : Settled [] (u.toList.drop l)).dropWhile_eq_nil
    rw [← drop_skip] at blanks
    have within := List.drop_eq_nil_iff.mp blanks
    have inText : skip u l ≤ u.size := skipBlanks_le reads'.bounds.2
    rw [Array.length_toList] at within
    omega

end Surveyor.Json
