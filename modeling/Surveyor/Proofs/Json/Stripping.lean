import Surveyor.Proofs.Json.Tokens

/-! # Removing comments and trailing commas

Both passes go over a relaxed document token by token: string literals are copied as a whole, so
nothing in them is taken for a comment or a comma. Without its comments a relaxed document is one that
is relaxed by blanks and commas only (`withoutComments_relaxed`). Without its trailing commas it has
the tokens of the document again; only commas that the document itself has before a closing bracket
are gone as well (`Settled`).
-/

namespace Surveyor.Json

variable {t : Text} {i fuel : Nat} {out : Text} {c : Char} {rest : List Char}

/-! ## String literals -/

theorem literalEnd?_of_tail {tail : List Char} (closed : LiteralTail tail) {lineBound : Bool}
    (left : t.toList.drop i = tail ++ rest) (enough : tail.length ≤ fuel) :
    literalEnd? t lineBound fuel i = some (i + tail.length) := by
  induction closed generalizing i fuel with
  | close =>
    obtain ⟨fuel, rfl⟩ : ∃ less, fuel = less + 1 := ⟨fuel - 1, by simp at enough; omega⟩
    rw [literalEnd?, Text.getElem?_of_drop left]
    rfl
  | @plain c rest' notQuote notEscape _ _ inductionHypothesis =>
    rw [List.length_cons] at enough
    obtain ⟨fuel, rfl⟩ : ∃ less, fuel = less + 1 := ⟨fuel - 1, by omega⟩
    have further := inductionHypothesis (Text.drop_succ left) (show rest'.length ≤ fuel by omega)
    rw [literalEnd?, Text.getElem?_of_drop left]
    split
    · next absent => cases absent
    · next quote => exact absurd (Option.some.inj quote) notQuote
    · next escape => exact absurd (Option.some.inj escape) notEscape
    · rw [further, List.length_cons]
      congr 1
      omega
  | @escape c rest' inLine _ inductionHypothesis =>
    simp only [List.length_cons] at enough
    obtain ⟨fuel, rfl⟩ : ∃ less, fuel = less + 1 := ⟨fuel - 1, by omega⟩
    have next := Text.drop_succ left
    have further := inductionHypothesis (Text.drop_succ next) (show rest'.length ≤ fuel by omega)
    rw [literalEnd?, Text.getElem?_of_drop left]
    simp only [Text.getElem?_of_drop next]
    rw [if_neg (by simp [inLine]), further, List.length_cons, List.length_cons]
    congr 1
    omega

theorem length_of_drop (left : t.toList.drop i = rest) : rest.length = t.size - i := by
  rw [← left, List.length_drop, Array.length_toList]

theorem literalEnd?_of_literal {tail : List Char} (closed : LiteralTail tail) (lineBound : Bool)
    (left : t.toList.drop i = '"' :: tail ++ rest) :
    literalEnd? t lineBound t.size (i + 1) = some (i + ('"' :: tail).length) := by
  have within := length_of_drop left
  simp only [List.length_append, List.length_cons] at within
  rw [literalEnd?_of_tail closed (Text.drop_succ left) (by omega), List.length_cons]
  congr 1
  omega

/-! ## Comments -/

theorem lineEnd_of_drop {body : List Char} (inLine : '\n' ∉ body) (left : t.toList.drop i = body ++ rest)
    (ends : rest = [] ∨ ∃ later, rest = '\n' :: later) (enough : body.length + rest.length ≤ fuel) :
    lineEnd t fuel i = i + body.length := by
  induction body generalizing i fuel with
  | nil =>
    cases fuel with
    | zero => rfl
    | succ fuel =>
      rw [lineEnd, Text.getElem?_eq_head?, left]
      rcases ends with rfl | ⟨later, rfl⟩
      · rfl
      · rfl
  | cons c body inductionHypothesis =>
    rw [List.mem_cons, not_or] at inLine
    rw [List.length_cons] at enough ⊢
    obtain ⟨fuel, rfl⟩ : ∃ less, fuel = less + 1 := ⟨fuel - 1, by omega⟩
    have further := inductionHypothesis inLine.2 (Text.drop_succ left) (show _ ≤ fuel by omega)
    rw [lineEnd, Text.getElem?_of_drop left]
    simp only
    rw [if_neg (by simpa using Ne.symm inLine.1), further]
    omega

theorem blockEnd?_of_drop {body : List Char} (noEnd : ¬ ['*', '/'] <:+: body)
    (left : t.toList.drop i = body ++ '*' :: '/' :: rest) (enough : body.length < fuel) :
    blockEnd? t fuel i = some (i + body.length + 2) := by
  induction body generalizing i fuel with
  | nil =>
    obtain ⟨fuel, rfl⟩ : ∃ less, fuel = less + 1 := ⟨fuel - 1, by omega⟩
    rw [blockEnd?, Text.getElem?_of_drop left]
    simp [Text.getElem?_of_drop (Text.drop_succ left)]
  | cons c body inductionHypothesis =>
    rw [List.length_cons] at enough ⊢
    obtain ⟨fuel, rfl⟩ : ∃ less, fuel = less + 1 := ⟨fuel - 1, by omega⟩
    have next := Text.drop_succ left
    have further := inductionHypothesis (fun inside => noEnd (inside.trans (List.suffix_cons c body).isInfix))
      next (show _ < fuel by omega)
    -- A star in the body is not followed by a slash, since the end begins with a star itself.
    have goesOn : ¬ (c = '*' ∧ t[i + 1]? = some '/') := by
      rintro ⟨rfl, slash⟩
      rw [Text.getElem?_eq_head?, next] at slash
      cases body with
      | nil => cases slash
      | cons d body =>
        cases slash
        exact noEnd ⟨[], body, rfl⟩
    rw [blockEnd?, Text.getElem?_of_drop left]
    simp only [Bool.and_eq_true, beq_iff_eq]
    rw [if_neg goesOn, further]
    congr 1
    omega

theorem commentEnd?_of_filler {piece : List Char} (inserted : Filler true piece rest)
    (left : t.toList.drop i = piece ++ rest) :
    (∃ c, piece = [c] ∧ isJsonBlank c = true)
      ∨ t[i]? = some '/' ∧ commentEnd? t i = some (i + piece.length) := by
  have within := length_of_drop left
  cases inserted with
  | @blank c _ blank => exact .inl ⟨c, rfl, blank⟩
  | @line body _ _ inLine ends =>
    have next := Text.drop_succ left
    simp only [List.length_append, List.length_cons] at within
    have ended : lineEnd t t.size (i + 1 + 1) = i + 1 + 1 + body.length :=
      lineEnd_of_drop inLine (Text.drop_succ next) ends (by omega)
    refine .inr ⟨Text.getElem?_of_drop left, ?_⟩
    rw [commentEnd?, Text.getElem?_of_drop left, Text.getElem?_of_drop next]
    simp only [beq_self_eq_true, if_true, ended, List.length_cons]
    congr 1
    omega
  | @block body _ _ noEnd =>
    have next := Text.drop_succ left
    have bodyLeft : t.toList.drop (i + 1 + 1) = body ++ '*' :: '/' :: rest := by
      rw [Text.drop_succ next]
      simp
    simp only [List.length_append, List.length_cons] at within
    have ended : blockEnd? t t.size (i + 1 + 1) = some (i + 1 + 1 + body.length + 2) :=
      blockEnd?_of_drop noEnd bodyLeft (by omega)
    refine .inr ⟨Text.getElem?_of_drop left, ?_⟩
    rw [commentEnd?, Text.getElem?_of_drop left, Text.getElem?_of_drop next]
    simp [ended]
    omega

/-! ## Copying -/

/-- A scan that copies string literals as a whole and other characters one by one, except for a
special one. -/
structure CopiesBut (special : Char) (t : Text) (scan : Nat → Nat → Text → Text) : Prop where
  noWord : isWordChar special = false
  literal : ∀ {tail rest : List Char} {fuel i : Nat} {out : Text}, LiteralTail tail →
    t.toList.drop i = '"' :: tail ++ rest →
    scan (fuel + 1) i out = scan fuel (i + ('"' :: tail).length) (out ++ ('"' :: tail).toArray)
  push : ∀ {c : Char} {rest : List Char} {fuel i : Nat} {out : Text},
    t.toList.drop i = c :: rest → c ≠ '"' → c ≠ special →
    scan (fuel + 1) i out = scan fuel (i + 1) (out.push c)

namespace CopiesBut

variable {special : Char} {scan : Nat → Nat → Text → Text}

theorem stretch (copies : CopiesBut special t scan) {part : List Char}
    (ordinary : ∀ c ∈ part, c ≠ '"' ∧ c ≠ special) (left : t.toList.drop i = part ++ rest) :
    scan (part.length + fuel) i out = scan fuel (i + part.length) (out ++ part.toArray) := by
  induction part generalizing i out with
  | nil => simp
  | cons c part inductionHypothesis =>
    obtain ⟨notQuote, notSpecial⟩ := ordinary c List.mem_cons_self
    rw [List.length_cons, show part.length + 1 + fuel = part.length + fuel + 1 by omega,
      copies.push left notQuote notSpecial,
      inductionHypothesis (fun d member => ordinary d (List.mem_cons_of_mem c member))
        (Text.drop_succ left)]
    congr 1
    · omega
    · simp

/-- Every token is copied, unless it is the special character. -/
theorem token (copies : CopiesBut special t scan) (out : Text) {token after : List Char}
    (isToken : Token token after) (other : token ≠ [special])
    (left : t.toList.drop i = token ++ rest) (enough : token.length ≤ fuel) :
    ∃ less, fuel ≤ less + token.length
      ∧ scan fuel i out = scan less (i + token.length) (out ++ token.toArray) := by
  cases isToken with
  | @sign c _ isSign =>
    obtain ⟨less, rfl⟩ : ∃ less, fuel = less + 1 := ⟨fuel - 1, by simp at enough; omega⟩
    have notQuote : c ≠ '"' := ne_of_holds isSign (by decide)
    refine ⟨less, Nat.le_refl _, ?_⟩
    rw [copies.push left notQuote (by simpa using other)]
    simp
  | literal closed =>
    obtain ⟨less, rfl⟩ : ∃ less, fuel = less + 1 := ⟨fuel - 1, by simp at enough; omega⟩
    exact ⟨less, by simp, copies.literal closed left⟩
  | word nonempty all =>
    obtain ⟨less, rfl⟩ : ∃ less, fuel = token.length + less := ⟨fuel - token.length, by omega⟩
    refine ⟨less, by omega, copies.stretch ?_ left⟩
    intro c member
    have letter := all c member
    exact ⟨ne_of_holds letter (by decide), ne_of_holds letter copies.noWord⟩

end CopiesBut

/-! ## The pass over comments -/

theorem withoutComments_copies (t : Text) : CopiesBut '/' t (withoutComments t) where
  noWord := by decide
  literal := by
    intro tail rest fuel i out closed left
    rw [withoutComments, Text.getElem?_of_drop left]
    simp only [beq_self_eq_true, if_true, literalEnd?_of_literal closed false left]
    rw [Text.extract_of_append left]
  push := by
    intro c rest fuel i out left notQuote notSlash
    have here := Text.getElem?_of_drop left
    have noComment : commentEnd? t i = none := by
      rw [commentEnd?, here, if_neg (by simpa using notSlash)]
    rw [withoutComments, here]
    simp [notQuote, noComment]

theorem withoutComments_comment {stop : Nat} (here : t[i]? = some '/')
    (ends : commentEnd? t i = some stop) :
    withoutComments t (fuel + 1) i out = withoutComments t fuel stop out := by
  rw [withoutComments, here]
  simp [ends]

theorem withoutComments_end (left : t.toList.drop i = []) : withoutComments t fuel i out = out := by
  have here : t[i]? = none := by rw [Text.getElem?_eq_head?, left]; rfl
  cases fuel with
  | zero => rfl
  | succ fuel => rw [withoutComments, here]

/-- Without its comments a text comes from the document by inserting blanks and commas. -/
theorem withoutComments_relaxed (out : Text) {ended : Bool} {chars text : List Char}
    (relaxed : Relaxed true ended chars text) (left : t.toList.drop i = text)
    (enough : text.length ≤ fuel) :
    ∃ bare, (withoutComments t fuel i out).toList = out.toList ++ bare
      ∧ Relaxed false ended chars bare := by
  -- The induction is on how the text comes from the document; what is copied already varies with it.
  induction relaxed generalizing i fuel out with
  | done => exact ⟨[], by rw [withoutComments_end left, List.append_nil], .done⟩
  | @filler ended piece chars text inserted rest inductionHypothesis =>
    have following := Text.drop_of_append left
    rw [List.length_append] at enough
    rcases commentEnd?_of_filler inserted left with ⟨c, rfl, blank⟩ | ⟨slash, ends⟩
    · rw [List.length_singleton] at enough
      obtain ⟨less, rfl⟩ : ∃ less, fuel = less + 1 := ⟨fuel - 1, by omega⟩
      have notQuote : c ≠ '"' := ne_of_holds blank (by decide)
      have notSlash : c ≠ '/' := ne_of_holds blank (by decide)
      obtain ⟨bare, copied, related⟩ := @inductionHypothesis (i + 1) less (out.push c) following
        (by omega)
      refine ⟨c :: bare, ?_, .filler (.blank blank) related⟩
      rw [(withoutComments_copies t).push left notQuote notSlash]
      simpa using copied
    · have nonempty : piece ≠ [] := by rintro rfl; cases inserted
      have positive := List.length_pos_iff.mpr nonempty
      obtain ⟨less, rfl⟩ : ∃ less, fuel = less + 1 := ⟨fuel - 1, by omega⟩
      rw [withoutComments_comment slash ends]
      exact inductionHypothesis out following (by omega)
  | @comma chars text last rest inductionHypothesis =>
    rw [List.length_cons] at enough
    obtain ⟨less, rfl⟩ : ∃ less, fuel = less + 1 := ⟨fuel - 1, by omega⟩
    obtain ⟨bare, copied, related⟩ := @inductionHypothesis (i + 1) less (out.push ',')
      (Text.drop_succ left) (by omega)
    refine ⟨',' :: bare, ?_, .comma last related⟩
    rw [(withoutComments_copies t).push left (by decide) (by decide)]
    simpa using copied
  | @blank ended c chars text blank rest inductionHypothesis =>
    rw [List.length_cons] at enough
    obtain ⟨less, rfl⟩ : ∃ less, fuel = less + 1 := ⟨fuel - 1, by omega⟩
    have notQuote : c ≠ '"' := ne_of_holds blank (by decide)
    have notSlash : c ≠ '/' := ne_of_holds blank (by decide)
    obtain ⟨bare, copied, related⟩ := @inductionHypothesis (i + 1) less (out.push c)
      (Text.drop_succ left) (by omega)
    refine ⟨c :: bare, ?_, .blank blank related⟩
    rw [(withoutComments_copies t).push left notQuote notSlash]
    simpa using copied
  | @token ended token chars text isToken rest inductionHypothesis =>
    rw [List.length_append] at enough
    have notSlash : token ≠ ['/'] := by
      rintro rfl
      obtain ⟨c, _, same, starts⟩ := isToken.exists_cons
      cases same
      cases starts
    obtain ⟨less, spent, copiedToken⟩ := (withoutComments_copies t).token out isToken notSlash left
      (show token.length ≤ fuel by omega)
    obtain ⟨bare, copied, related⟩ := @inductionHypothesis (i + token.length) less
      (out ++ token.toArray) (Text.drop_of_append left) (by omega)
    refine ⟨token ++ bare, ?_, .token isToken related⟩
    rw [copiedToken, copied]
    simp

/-! ## The pass over trailing commas -/

/-- A text has the tokens of a document; commas before a closing bracket may be missing. -/
inductive Settled : List Char → List Char → Prop
  | done : Settled [] []
  | inserted {c : Char} {chars text : List Char} (isBlank : isJsonBlank c = true)
      (rest : Settled chars text) : Settled chars (c :: text)
  | blank {c : Char} {chars text : List Char} (isBlank : isJsonBlank c = true)
      (rest : Settled chars text) : Settled (c :: chars) (c :: text)
  | token {token chars text : List Char} (isToken : Token token chars) (rest : Settled chars text) :
      Settled (token ++ chars) (token ++ text)
  | dropped {chars text : List Char} (last : closerNext chars = true) (rest : Settled chars text) :
      Settled (',' :: chars) text

theorem skipAllBlanks_eq (left : t.toList.drop i = rest) (enough : rest.length ≤ fuel) :
    skipAllBlanks t fuel i = i + (rest.takeWhile isBlank).length := by
  induction rest generalizing i fuel with
  | nil =>
    cases fuel with
    | zero => rfl
    | succ fuel =>
      rw [skipAllBlanks, Text.getElem?_eq_head?, left]
      rfl
  | cons c rest inductionHypothesis =>
    rw [List.length_cons] at enough
    obtain ⟨fuel, rfl⟩ : ∃ less, fuel = less + 1 := ⟨fuel - 1, by omega⟩
    rw [skipAllBlanks, Text.getElem?_of_drop left]
    by_cases blank : isBlank c = true
    · simp only [blank, if_true, List.takeWhile_cons_of_pos, List.length_cons]
      rw [inductionHypothesis (Text.drop_succ left) (by omega)]
      omega
    · simp only [blank, Bool.false_eq_true, if_false, List.takeWhile_cons_of_neg, not_false_eq_true,
        List.length_nil, Nat.add_zero]

/-- Where no comma may be inserted, the next character that is not blank is the one of the
document. -/
theorem head?_dropWhile_of_relaxed {ended : Bool} {chars text : List Char}
    (relaxed : Relaxed false ended chars text) (notEnded : ended = false) :
    (text.dropWhile isBlank).head? = (chars.dropWhile isJsonBlank).head? := by
  induction relaxed with
  | done => rfl
  | filler inserted rest inductionHypothesis =>
    cases inserted with
    | blank blank =>
      rw [List.singleton_append, List.dropWhile_cons_of_pos (isBlank_of_isJsonBlank blank),
        inductionHypothesis notEnded]
    | line allowed => cases allowed
    | block allowed => cases allowed
  | comma => cases notEnded
  | blank blank rest inductionHypothesis =>
    rw [List.dropWhile_cons_of_pos (isBlank_of_isJsonBlank blank), List.dropWhile_cons_of_pos blank,
      inductionHypothesis notEnded]
  | token isToken rest =>
    obtain ⟨c, others, rfl, starts⟩ := isToken.exists_cons
    rw [List.cons_append, List.cons_append,
      List.dropWhile_cons_of_neg (by simp [isBlank_of_startsToken starts]),
      List.dropWhile_cons_of_neg (by simp [isJsonBlank_of_startsToken starts])]
    rfl

theorem isTrailingComma_eq {chars : List Char} (left : t.toList.drop i = ',' :: rest)
    (relaxed : Relaxed false false chars rest) : isTrailingComma t i = closerNext chars := by
  have next := Text.drop_succ left
  have within := length_of_drop next
  have first : t[skipAllBlanks t t.size (i + 1)]? = (chars.dropWhile isJsonBlank).head? := by
    rw [skipAllBlanks_eq next (by omega), Text.getElem?_eq_head?, ← List.drop_drop, next,
      ← head?_dropWhile_of_relaxed relaxed rfl, Text.drop_length_takeWhile]
  rw [isTrailingComma, Text.getElem?_of_drop left, first, closerNext]
  cases (chars.dropWhile isJsonBlank).head? with
  | none => rfl
  | some c => simp [isCloser]

theorem withoutTrailingCommas_push (left : t.toList.drop i = c :: rest) (notQuote : c ≠ '"')
    (kept : isTrailingComma t i = false) :
    withoutTrailingCommas t (fuel + 1) i out = withoutTrailingCommas t fuel (i + 1) (out.push c) := by
  rw [withoutTrailingCommas, Text.getElem?_of_drop left]
  simp [notQuote, kept]

theorem withoutTrailingCommas_copies (t : Text) : CopiesBut ',' t (withoutTrailingCommas t) where
  noWord := by decide
  literal := by
    intro tail rest fuel i out closed left
    rw [withoutTrailingCommas, Text.getElem?_of_drop left]
    simp only [beq_self_eq_true, if_true, literalEnd?_of_literal closed true left]
    rw [Text.extract_of_append left]
  push := by
    intro c rest fuel i out left notQuote notComma
    apply withoutTrailingCommas_push left notQuote
    rw [isTrailingComma, Text.getElem?_of_drop left, if_neg (by simpa using notComma)]

/-- A trailing comma is left out; the blanks and the bracket behind it are copied as any other
character. -/
theorem withoutTrailingCommas_skip (fuel : Nat) (out : Text) (left : t.toList.drop i = ',' :: rest)
    (trailing : isTrailingComma t i = true) :
    ∃ less, fuel ≤ less ∧ withoutTrailingCommas t (fuel + 1) i out
      = withoutTrailingCommas t less (i + 1) out := by
  have next := Text.drop_succ left
  have within := length_of_drop next
  have stops := skipAllBlanks_eq next (show rest.length ≤ t.size by omega)
  have parts := List.takeWhile_append_dropWhile (p := isBlank) (l := rest)
  obtain ⟨closer, later, behind, closes⟩ : ∃ closer later,
      rest.dropWhile isBlank = closer :: later ∧ isCloser closer = true := by
    rw [isTrailingComma, Text.getElem?_of_drop left, stops, Text.getElem?_eq_head?, ← List.drop_drop,
      next, Text.drop_length_takeWhile] at trailing
    cases behind : rest.dropWhile isBlank with
    | nil => simp [behind] at trailing
    | cons closer later =>
      rw [behind] at trailing
      exact ⟨closer, later, rfl, by simpa [isCloser] using trailing⟩
  have stretch : t.toList.drop (i + 1) = (rest.takeWhile isBlank ++ [closer]) ++ later := by
    rw [next, List.append_assoc, List.singleton_append, ← behind, parts]
  -- Neither a blank nor a bracket is a quote or a comma, so a scan that starts at the blanks copies them.
  have ordinary : ∀ c ∈ rest.takeWhile isBlank ++ [closer], c ≠ '"' ∧ c ≠ ',' := by
    intro c member
    rcases List.mem_append.mp member with inBlanks | atEnd
    · have blank := List.all_eq_true.mp (List.all_takeWhile (p := isBlank)) c inBlanks
      exact ⟨ne_of_holds blank (by decide), ne_of_holds blank (by decide)⟩
    · obtain rfl := List.mem_singleton.mp atEnd
      exact ⟨ne_of_holds closes (by decide), ne_of_holds closes (by decide)⟩
  refine ⟨(rest.takeWhile isBlank ++ [closer]).length + fuel, Nat.le_add_left fuel _, ?_⟩
  rw [(withoutTrailingCommas_copies t).stretch ordinary stretch, withoutTrailingCommas,
    Text.getElem?_of_drop left]
  have stop : skipAllBlanks t t.size (i + 1) + 1
      = i + 1 + (rest.takeWhile isBlank ++ [closer]).length := by
    rw [stops]
    simp
    omega
  simp only [Char.reduceBEq, Bool.false_eq_true, if_false, trailing, if_true, stop]
  rw [Text.extract_of_append stretch]

theorem withoutTrailingCommas_end (left : t.toList.drop i = []) :
    withoutTrailingCommas t fuel i out = out := by
  have here : t[i]? = none := by rw [Text.getElem?_eq_head?, left]; rfl
  cases fuel with
  | zero => rfl
  | succ fuel => rw [withoutTrailingCommas, here]

theorem withoutTrailingCommas_settled (out : Text) {ended : Bool} {chars text : List Char}
    (relaxed : Relaxed false ended chars text) (left : t.toList.drop i = text)
    (enough : text.length ≤ fuel) :
    ∃ plain, (withoutTrailingCommas t fuel i out).toList = out.toList ++ plain
      ∧ Settled chars plain := by
  -- As above, but here a comma is looked at together with what follows it.
  induction relaxed generalizing i fuel out with
  | done => exact ⟨[], by rw [withoutTrailingCommas_end left, List.append_nil], .done⟩
  | @filler ended piece chars text inserted rest inductionHypothesis =>
    cases inserted with
    | @blank c _ blank =>
      rw [List.length_append, List.length_singleton] at enough
      obtain ⟨less, rfl⟩ : ∃ less, fuel = less + 1 := ⟨fuel - 1, by omega⟩
      obtain ⟨plain, copied, settled⟩ := @inductionHypothesis (i + 1) less (out.push c)
        (Text.drop_succ left) (by omega)
      have notQuote : c ≠ '"' := ne_of_holds blank (by decide)
      have notComma : c ≠ ',' := ne_of_holds blank (by decide)
      refine ⟨c :: plain, ?_, .inserted blank settled⟩
      rw [(withoutTrailingCommas_copies t).push left notQuote notComma]
      simpa using copied
    | line allowed => cases allowed
    | block allowed => cases allowed
  | @comma chars text last rest inductionHypothesis =>
    rw [List.length_cons] at enough
    obtain ⟨less, rfl⟩ : ∃ less, fuel = less + 1 := ⟨fuel - 1, by omega⟩
    obtain ⟨more, atLeast, skipped⟩ := withoutTrailingCommas_skip less out left
      (by rw [isTrailingComma_eq left rest, last])
    rw [skipped]
    exact inductionHypothesis out (Text.drop_succ left) (by omega)
  | @blank ended c chars text blank rest inductionHypothesis =>
    rw [List.length_cons] at enough
    obtain ⟨less, rfl⟩ : ∃ less, fuel = less + 1 := ⟨fuel - 1, by omega⟩
    obtain ⟨plain, copied, settled⟩ := @inductionHypothesis (i + 1) less (out.push c)
      (Text.drop_succ left) (by omega)
    have notQuote : c ≠ '"' := ne_of_holds blank (by decide)
    have notComma : c ≠ ',' := ne_of_holds blank (by decide)
    refine ⟨c :: plain, ?_, .blank blank settled⟩
    rw [(withoutTrailingCommas_copies t).push left notQuote notComma]
    simpa using copied
  | @token ended token chars text isToken rest inductionHypothesis =>
    rw [List.length_append] at enough
    by_cases isComma : token = [',']
    · subst isComma
      rw [List.length_singleton] at enough
      obtain ⟨less, rfl⟩ : ∃ less, fuel = less + 1 := ⟨fuel - 1, by omega⟩
      have decided := isTrailingComma_eq left rest
      by_cases last : closerNext chars = true
      · -- The comma of the document is taken for a trailing one.
        obtain ⟨more, atLeast, skipped⟩ := withoutTrailingCommas_skip less out left
          (by rw [decided, last])
        obtain ⟨plain, copied, settled⟩ := @inductionHypothesis (i + 1) more out
          (Text.drop_succ left) (by omega)
        exact ⟨plain, by rw [skipped, copied], .dropped last settled⟩
      · obtain ⟨plain, copied, settled⟩ := @inductionHypothesis (i + 1) less (out.push ',')
          (Text.drop_succ left) (by omega)
        refine ⟨',' :: plain, ?_, .token isToken settled⟩
        rw [withoutTrailingCommas_push left (by decide) (by rw [decided]; simpa using last)]
        simpa using copied
    · obtain ⟨less, spent, copiedToken⟩ := (withoutTrailingCommas_copies t).token out isToken isComma
        left (show token.length ≤ fuel by omega)
      obtain ⟨plain, copied, settled⟩ := @inductionHypothesis (i + token.length) less
        (out ++ token.toArray) (Text.drop_of_append left) (by omega)
      refine ⟨token ++ plain, ?_, .token isToken settled⟩
      rw [copiedToken, copied]
      simp

/-- What is left of a relaxed document has its tokens. -/
theorem settled_plainText {chars : List Char} (relaxed : Relaxed true false chars t.toList) :
    Settled chars (plainText t).toList := by
  obtain ⟨bare, copied, related⟩ := withoutComments_relaxed #[] relaxed
    (show t.toList.drop 0 = t.toList from rfl) (Nat.le_of_eq Array.length_toList)
  rw [List.nil_append] at copied
  rw [← copied] at related
  obtain ⟨plain, copied', settled⟩ := withoutTrailingCommas_settled #[] related
    (show (withoutComments t t.size 0 #[]).toList.drop 0 = _ from rfl) (Nat.le_of_eq Array.length_toList)
  rw [List.nil_append] at copied'
  rw [← copied'] at settled
  exact settled

end Surveyor.Json
