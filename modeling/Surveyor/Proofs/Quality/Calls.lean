import Surveyor.Proofs.Pattern.Spelling
import Surveyor.Proofs.Quality.Unused

/-! # Which calls are recorded

A call is a name between two boundaries, blanks and an opening parenthesis. After the keyword
`function` it is a declaration. Of the others, those are recorded whose name starts with an ASCII
letter, an underscore or a dollar sign, unless a variable called `$function` stands right before them
or the header of a method is found at them (`undeclared_call_recorded_iff`).

A header is found only where a statement may start and where a block follows, perhaps after a return
type. That is also what a conditional expression looks like when its first branch is a call at the
start of a line and its second one an object.
-/

namespace Surveyor

namespace Reference

open Pattern

variable {t : Text} {n : String} {i j : Nat}

/-! ## Occurrences -/

/-- A non-empty run of name characters stands at the offset, with no further one on either side. -/
structure NameAt (t : Text) (n : String) (i : Nat) : Prop where
  nonempty : 0 < n.length
  chars : ∀ c ∈ n.toList, isNameChar c = true
  here : ∀ k, k < n.length → t[i + k]? = n.toList[k]?
  startsFresh : ∀ c, 0 < i → t[i - 1]? = some c → isNameChar c = false
  endsHere : ∀ c, t[i + n.length]? = some c → isNameChar c = false

/-- Blanks and an opening parenthesis follow. -/
def OpensAt (t : Text) (i : Nat) : Prop := ∃ k, i ≤ k ∧ Stands t isBlank i k ∧ t[k]? = some '('

/-- The word `function` from `k` on, then an optional asterisk and ampersand, with blanks between,
up to `i`. -/
def FunctionWord (t : Text) (k i : Nat) : Prop :=
  (∀ l, l < 8 → t[k + l]? = "function".toList[l]?)
    ∧ ∃ a, k + 8 ≤ a ∧ Stands t isBlank (k + 8) a
    ∧ ∃ a', (a' = a ∨ t[a]? = some '*' ∧ a' = a + 1)
    ∧ ∃ b, a' ≤ b ∧ Stands t isBlank a' b
    ∧ ∃ b', (b' = b ∨ t[b]? = some '&' ∧ b' = b + 1)
    ∧ b' ≤ i ∧ Stands t isBlank b' i

/-- The keyword `function` stands before the offset; as a keyword it is no part of a longer name. -/
def AfterKeyword (t : Text) (i : Nat) : Prop :=
  ∃ k, FunctionWord t k i ∧ ∀ c, 0 < k → t[k - 1]? = some c → isNameChar c = false

/-- A variable called `$function` stands before the offset, no more than 24 characters away. -/
def AfterFunctionVariable (t : Text) (i : Nat) : Prop :=
  ∃ k, FunctionWord t k i ∧ 0 < k ∧ t[k - 1]? = some '$' ∧ i ≤ k + 24

inductive Balanced (t : Text) : Nat → Nat → Prop where
  | nil {i : Nat} : Balanced t i i
  | plain {i j : Nat} {c : Char} (here : t[i]? = some c) (other : isParen c = false)
      (rest : Balanced t (i + 1) j) : Balanced t i j
  | nested {i close j : Nat} (opens : t[i]? = some '(') (inside : Balanced t (i + 1) close)
      (closes : t[close]? = some ')') (rest : Balanced t (close + 1) j) : Balanced t i j

def isAnnotationChar (c : Char) : Bool := c != '{' && c != ';' && c != '=' && c != '\n'

/-- Parameters in parentheses, perhaps a return type after a colon, and an opening brace follow. -/
def HeadsBlock (t : Text) (i : Nat) : Prop :=
  ∃ k, i ≤ k ∧ Stands t isBlank i k ∧ t[k]? = some '('
    ∧ ∃ close, Balanced t (k + 1) close ∧ t[close]? = some ')'
    ∧ ∃ a, (a = close + 1
        ∨ ∃ colon, close + 1 ≤ colon ∧ Stands t isBlank (close + 1) colon ∧ t[colon]? = some ':'
          ∧ ∃ b, colon + 1 ≤ b ∧ Stands t isBlank (colon + 1) b
          ∧ b ≤ a ∧ Stands t isAnnotationChar b a)
    ∧ ∃ brace, a ≤ brace ∧ Stands t isBlank a brace ∧ t[brace]? = some '{'

/-- The start of the text or of a line, or an offset right after a brace or a semicolon. -/
def StatementStart (t : Text) (i : Nat) : Prop :=
  i = 0 ∨ 0 < i ∧ ∃ c ∈ ['\n', '{', ';', '}'], t[i - 1]? = some c

/-- Modifiers of a method, each followed by blanks. -/
inductive ModifiersAt (t : Text) : Nat → Nat → Prop where
  | none {i : Nat} : ModifiersAt t i i
  | more {i k j : Nat} {modifier : String} (listed : modifier ∈ Script.methodModifiers)
      (spelled : Spelled t modifier i) (separated : i + modifier.length < k)
      (blanks : Stands t isBlank (i + modifier.length) k) (rest : ModifiersAt t k j) :
      ModifiersAt t i j

/-- Between the start of a statement and the offset there is nothing but tabs and spaces, modifiers,
perhaps an asterisk with blanks after it, and perhaps a mark of privacy. -/
def LeadsToName (t : Text) (i : Nat) : Prop :=
  ∃ start, StatementStart t start
    ∧ ∃ indented, start ≤ indented ∧ Stands t isTabOrSpace start indented
    ∧ ∃ modified, ModifiersAt t indented modified
    ∧ ∃ starred, (starred = modified
        ∨ t[modified]? = some '*' ∧ modified + 1 ≤ starred ∧ Stands t isBlank (modified + 1) starred)
    ∧ (i = starred ∨ t[starred]? = some '#' ∧ i = starred + 1)

theorem nameAt_iff :
    NameAt t n i ↔ 0 < n.length ∧ n.toList.all isNameChar = true
      ∧ (∀ k, k < n.length → t[i + k]? = n.toList[k]?)
      ∧ (0 < i → t[i - 1]?.all (!isNameChar ·) = true)
      ∧ t[i + n.length]?.all (!isNameChar ·) = true := by
  simp only [List.all_eq_true, Option.all_eq_true, Bool.not_eq_true']
  constructor
  · intro occurs
    exact ⟨occurs.nonempty, occurs.chars, occurs.here,
      fun positive c previous => occurs.startsFresh c positive previous, occurs.endsHere⟩
  · rintro ⟨nonempty, chars, here, startsFresh, endsHere⟩
    exact ⟨nonempty, chars, here, fun c positive => startsFresh positive c, endsHere⟩

instance : Decidable (NameAt t n i) := decidable_of_iff _ nameAt_iff.symm

theorem NameAt.stands (occurs : NameAt t n i) : Stands t isNameChar i (i + n.length) := by
  intro k from_ inside
  have inName : k - i < n.toList.length := by
    rw [String.length_toList]
    omega
  refine ⟨n.toList[k - i], ?_, occurs.chars _ (List.getElem_mem inName)⟩
  rw [← List.getElem?_eq_getElem inName, ← occurs.here (k - i) (by omega)]
  congr 1
  omega

/-- A run of name characters from the offset that something else follows is the whole name. -/
theorem NameAt.end_eq {c : Char} (occurs : NameAt t n i) (from_ : i ≤ j)
    (run : Stands t isNameChar i j) (next : t[j]? = some c) (other : isNameChar c = false) :
    j = i + n.length := by
  have upTo : i + n.length ≤ j := occurs.stands.le_of_not from_ next other
  rcases Nat.eq_or_lt_of_le upTo with same | longer
  · exact same.symm
  · obtain ⟨d, here, inName⟩ := run (i + n.length) (by omega) longer
    rw [occurs.endsHere d here] at inName
    cases inName

/-- Blanks before something that is no name start with something that is no name. -/
theorem exists_not_name {k : Nat} {c : Char} (from_ : i ≤ k) (blanks : Stands t isBlank i k)
    (next : t[k]? = some c) (other : isNameChar c = false) :
    ∃ d, t[i]? = some d ∧ isNameChar d = false := by
  rcases Nat.eq_or_lt_of_le from_ with rfl | later
  · exact ⟨c, next, other⟩
  · obtain ⟨d, here, blank⟩ := blanks i (Nat.le_refl i) later
    exact ⟨d, here, not_isNameChar_of_isBlank blank⟩

/-- The first character after the blanks is the parenthesis. -/
theorem OpensAt.eq_paren {k : Nat} {c : Char} (opens : OpensAt t i) (from_ : i ≤ k)
    (blanks : Stands t isBlank i k) (here : t[k]? = some c) (solid : isBlank c = false) : c = '(' := by
  obtain ⟨paren, order, stands, parenHere⟩ := opens
  have first : paren ≤ k := stands.le_of_not from_ here solid
  have second : k ≤ paren := blanks.le_of_not order parenHere (by decide)
  obtain rfl : paren = k := by omega
  cases parenHere.symm.trans here
  rfl

/-! ## Headers of methods -/

theorem balanced_of_stands {p : Char → Bool} {i j : Nat}
    (plain : ∀ c, p c = true → isParen c = false) (order : i ≤ j) (stands : Stands t p i j) :
    Balanced t i j := by
  rcases Nat.eq_or_lt_of_le order with rfl | later
  · exact .nil
  · obtain ⟨c, here, inClass⟩ := stands i (Nat.le_refl i) later
    refine .plain here (plain c inClass) (balanced_of_stands plain later ?_)
    exact fun k from_ inside => stands k (by omega) inside
termination_by j - i

theorem balanced_of_arguments {p : Char → Bool} (plain : ∀ c, p c = true → isParen c = false)
    {s : Subject} (spans : s.Arguments p i j) : Balanced s.text i j := by
  induction spans with
  | nil => exact .nil
  | plain present _ inductionHypothesis =>
    obtain ⟨c, here, inClass⟩ := Subject.getElem?_of_has present
    exact .plain here (plain c inClass) inductionHypothesis
  | nested opens after inside closes _ inductionHypothesis =>
    obtain ⟨c, here, isOpening⟩ := Subject.getElem?_of_has opens
    obtain ⟨d, there, isClosing⟩ := Subject.getElem?_of_has closes
    rw [beq_iff_eq.mp isOpening] at here
    rw [beq_iff_eq.mp isClosing] at there
    exact .nested here (balanced_of_stands plain after (Subject.stands_of_has inside)) there
      inductionHypothesis

def headerRest : Pattern :=
  blanks ++ opt (char '<' ++ .greedy (fun c => c != '>' && c != '(' && c != '\n') 0 ++ char '>')
    ++ blanks ++ char '(' ++ .group 3 lineParameters ++ char ')'
    ++ opt (blanks ++ char ':' ++ blanks
      ++ .group 4 (.lazy (fun c => c != '{' && c != ';' && c != '=' && c != '\n') 1))
    ++ blanks ++ char '{'

theorem methodPattern_eq :
    Script.methodPattern =
      (Script.statementStart ++ indent ++ .group 1 (modifiers Script.methodModifiers)
          ++ opt (char '*' ++ blanks))
        ++ (.group 2 (opt (char '#') ++ .group 5 name) ++ headerRest) :=
  rfl

theorem exists_not_name_of_headerRest {k : Nat} {caps after : Captures}
    (member : (k, after) ∈ headerRest.ways (.ofText t) i caps) :
    ∃ c, t[i]? = some c ∧ isNameChar c = false := by
  simp only [headerRest, mem_ways_append, mem_ways_opt] at member
  obtain ⟨_, _, ⟨_, _, ⟨_, _, ⟨_, _, ⟨_, _, ⟨spaced, _, ⟨argued, _,
    ⟨blanked, _, blanksWay, typeArgumentsWay⟩, spacesWay⟩, openWay⟩, -⟩, -⟩, -⟩, -⟩, -⟩ := member
  obtain ⟨blanksOrder, blanksStand, rfl⟩ := stands_of_mem_greedy blanksWay
  rcases typeArgumentsWay with ⟨_, _, ⟨_, _, angleWay, -⟩, -⟩ | ⟨rfl, rfl⟩
  · exact exists_not_name blanksOrder blanksStand (getElem?_of_mem_char angleWay).1 (by decide)
  · obtain ⟨spacesOrder, spacesStand, rfl⟩ := stands_of_mem_greedy spacesWay
    exact exists_not_name (by omega) (blanksStand.append spacesStand)
      (getElem?_of_mem_char openWay).1 (by decide)

/-- Without type arguments, the rest of a method header heads a block. -/
theorem headsBlock_of_headerRest {k : Nat} {caps after : Captures} (opens : OpensAt t i)
    (member : (k, after) ∈ headerRest.ways (.ofText t) i caps) : HeadsBlock t i := by
  simp only [headerRest, mem_ways_append, mem_ways_opt] at member
  obtain ⟨brace, _, ⟨typed, _, ⟨close, _, ⟨given, _, ⟨opened, _, ⟨spaced, _, ⟨argued, _,
    ⟨blanked, _, blanksWay, typeArgumentsWay⟩, spacesWay⟩, openWay⟩, parametersWay⟩, closeWay⟩,
    annotationWay⟩, lastBlanksWay⟩, braceWay⟩ := member
  obtain ⟨blanksOrder, blanksStand, rfl⟩ := stands_of_mem_greedy blanksWay
  obtain ⟨spacesOrder, spacesStand, rfl⟩ := stands_of_mem_greedy spacesWay
  obtain ⟨openHere, rfl, rfl⟩ := getElem?_of_mem_char openWay
  obtain ⟨_, argumentsWay, rfl⟩ := mem_ways_group.mp parametersWay
  obtain ⟨spans, rfl⟩ := mem_ways_arguments argumentsWay
  obtain ⟨closeHere, rfl, rfl⟩ := getElem?_of_mem_char closeWay
  obtain ⟨lastOrder, lastStand, rfl⟩ := stands_of_mem_greedy lastBlanksWay
  obtain ⟨braceHere, rfl, rfl⟩ := getElem?_of_mem_char braceWay
  -- Type arguments would start with an angle bracket, where the parenthesis stands.
  have noTypeArguments : argued = blanked := by
    rcases typeArgumentsWay with ⟨_, _, ⟨_, _, angleWay, -⟩, -⟩ | ⟨same, -⟩
    · obtain ⟨angleHere, -⟩ := getElem?_of_mem_char angleWay
      exact absurd (opens.eq_paren blanksOrder blanksStand angleHere (by decide)) (by decide)
    · exact same
  subst noTypeArguments
  refine ⟨spaced, by omega, blanksStand.append spacesStand, openHere, given,
    balanced_of_arguments ?_ spans, closeHere, typed, ?_, brace, by omega, lastStand, braceHere⟩
  · intro c inLine
    simp only [Bool.and_eq_true, Bool.not_eq_true'] at inLine
    exact inLine.1
  · rcases annotationWay with ⟨written, _, ⟨colon, _, ⟨margin, _, marginWay, colonWay⟩, blanksWay⟩,
        typeWay⟩ | ⟨same, -⟩
    · obtain ⟨marginOrder, marginStand, rfl⟩ := stands_of_mem_greedy marginWay
      obtain ⟨colonHere, rfl, rfl⟩ := getElem?_of_mem_char colonWay
      obtain ⟨writtenOrder, writtenStand, rfl⟩ := stands_of_mem_greedy blanksWay
      obtain ⟨_, lazyWay, -⟩ := mem_ways_group.mp typeWay
      obtain ⟨typeOrder, typeStand, -⟩ := mem_ways_lazy.mp lazyWay
      exact .inr ⟨margin, marginOrder, marginStand, colonHere, written, by omega, writtenStand,
        by omega, Subject.stands_of_has typeStand⟩
    · exact .inl same

theorem statementStart_of_mem_ways {start : Nat} {caps after : Captures}
    (member : (start, after) ∈ Script.statementStart.ways (.ofText t) i caps) :
    StatementStart t start := by
  obtain ⟨atStart, rfl, -⟩ := mem_ways_where.mp member
  simp only [Bool.or_eq_true, beq_iff_eq, Subject.hasBefore_iff, Subject.has_ofText] at atStart
  rcases atStart with first | ⟨positive, c, before, among⟩
  · exact .inl first
  · exact .inr ⟨positive, c, by simpa [or_assoc] using among, before⟩

theorem modifiersAt_of_mem_ways {caps after : Captures}
    (member : (j, after) ∈ (modifiers Script.methodModifiers).ways (.ofText t) i caps) :
    ModifiersAt t i j := by
  have repeats := mem_ways_star.mp member
  clear member
  induction repeats with
  | done => exact .none
  | more once _ _ rest =>
    obtain ⟨_, _, wordWay, blanksWay⟩ := mem_ways_append.mp once
    obtain ⟨modifier, listed, spelled, rfl, -⟩ := mem_ways_words_ofText.mp wordWay
    obtain ⟨separated, blanks, -⟩ := mem_ways_greedy_ofText.mp blanksWay
    exact .more listed spelled separated blanks rest

/-- What stands before the name of a header, down to the mark of privacy. -/
theorem leadsToName_of_mem_ways {start k l : Nat} {caps between after last : Captures}
    (leadWay : (k, between) ∈ (Script.statementStart ++ indent
      ++ .group 1 (modifiers Script.methodModifiers) ++ opt (char '*' ++ blanks)).ways
        (.ofText t) start caps)
    (markWay : (l, after) ∈ (opt (char '#')).ways (.ofText t) k last) : LeadsToName t l := by
  simp only [mem_ways_append] at leadWay
  obtain ⟨modified, _, ⟨indented, _, ⟨statement, _, startWay, indentWay⟩, modifiersWay⟩,
    starWay⟩ := leadWay
  obtain ⟨indentOrder, indentStand, -⟩ := mem_ways_greedy_ofText.mp indentWay
  obtain ⟨_, modifierWays, -⟩ := mem_ways_group.mp modifiersWay
  -- The pieces of the lead, from left to right.
  refine ⟨statement, statementStart_of_mem_ways startWay, indented, indentOrder, indentStand,
    modified, modifiersAt_of_mem_ways modifierWays, k, ?_, ?_⟩
  · rcases mem_ways_opt.mp starWay with starred | ⟨same, -⟩
    · obtain ⟨_, _, asteriskWay, blanksWay⟩ := mem_ways_append.mp starred
      obtain ⟨here, rfl, -⟩ := mem_ways_char_ofText.mp asteriskWay
      obtain ⟨order, stands, -⟩ := mem_ways_greedy_ofText.mp blanksWay
      exact .inr ⟨here, order, stands⟩
    · exact .inl same
  · rcases mem_ways_opt.mp markWay with marked | ⟨same, -⟩
    · obtain ⟨here, ends, -⟩ := mem_ways_char_ofText.mp marked
      exact .inr ⟨here, ends⟩
    · exact .inl same

/-- A name declared by a header stands where one may, and a block follows it. -/
theorem header_of_declared (occurs : NameAt t n i) (opens : OpensAt t (i + n.length))
    (declared : i ∈ declaredOffsets t) : LeadsToName t i ∧ HeadsBlock t (i + n.length) := by
  obtain ⟨m, found, rfl⟩ := List.mem_map.mp declared
  have matched := isMatch_of_mem_findAll found
  rw [methodPattern_eq] at matched
  obtain ⟨nameEnd, _, _, -, leadWay, markedWay, restWay⟩ := matched.group (by decide)
  obtain ⟨nameStart, _, markWay, bareWay⟩ := mem_ways_append.mp markedWay
  obtain ⟨_, runWay, rfl⟩ := mem_ways_group.mp bareWay
  obtain ⟨nonempty, run, rfl⟩ := stands_of_mem_greedy runWay
  have nameAt : m.groupStart 5 = nameStart := by
    have untouched : m.captures.lookup 5 = some (nameStart, nameEnd) :=
      lookup_of_not_mem_groups (by decide) restWay
    rw [Match.groupStart, Match.span?, untouched]
    rfl
  rw [nameAt] at occurs opens ⊢
  -- The name in the header and the one at the offset both end where no name character follows.
  obtain ⟨c, next, other⟩ := exists_not_name_of_headerRest restWay
  have ends := occurs.end_eq (by omega) run next other
  rw [← ends] at opens ⊢
  exact ⟨leadsToName_of_mem_ways leadWay markWay, headsBlock_of_headerRest opens restWay⟩

/-! ## The keyword before a name -/

theorem literal_iff {k : Nat} {chars : List Char} (inside : k + chars.length ≤ i) :
    (∀ l (inRange : l < chars.length), (Subject.upTo t i).has (chars[l] == ·) (k + l) = true) ↔
      ∀ l, l < chars.length → t[k + l]? = chars[l]? := by
  constructor
  · intro all l inRange
    obtain ⟨c, here, same⟩ := Subject.getElem?_of_has (all l inRange)
    rw [List.getElem?_eq_getElem inRange, beq_iff_eq.mp same]
    exact here
  · intro all l inRange
    refine Subject.has_upTo.mpr ⟨by omega, chars[l], ?_, by simp⟩
    rw [all l inRange, List.getElem?_eq_getElem inRange]

/-- The word starts where no word character stands before it. -/
theorem wordEdge_iff {k : Nat} (before : k < i) (starts : t[k]? = some 'f') :
    ((Subject.upTo t i).hasBefore isWordChar k != (Subject.upTo t i).has isWordChar k) = true ↔
      ∀ c, 0 < k → t[k - 1]? = some c → isWordChar c = false := by
  have inWord : (Subject.upTo t i).has isWordChar k = true :=
    Subject.has_upTo.mpr ⟨before, 'f', starts, by decide⟩
  rw [inWord, bne_iff_ne, ne_eq, Subject.hasBefore_iff, Subject.has_upTo]
  constructor
  · intro fresh c positive here
    cases inClass : isWordChar c with
    | false => rfl
    | true => exact absurd ⟨positive, by omega, c, here, inClass⟩ fresh
  · rintro fresh ⟨positive, -, c, here, inClass⟩
    rw [fresh c positive here] at inClass
    cases inClass

theorem functionWord_of_mem_ways {k : Nat} (inText : i ≤ t.size)
    (matches_ : functionKeyword.ways (.upTo t i) k [] ≠ []) :
    FunctionWord t k i ∧ ∀ c, 0 < k → t[k - 1]? = some c → isWordChar c = false := by
  obtain ⟨⟨last, after⟩, member⟩ := List.exists_mem_of_ne_nil _ matches_
  simp only [functionKeyword, mem_ways_append, mem_ways_opt] at member
  obtain ⟨c, _, ⟨b', _, ⟨b, _, ⟨a', _, ⟨a, _, ⟨wordEnd, _, ⟨edge, _, edgeWay, wordWay⟩, firstWay⟩,
    starWay⟩, secondWay⟩, ampersandWay⟩, thirdWay⟩, endWay⟩ := member
  obtain ⟨atEdge, rfl, -⟩ := mem_ways_where.mp edgeWay
  obtain ⟨⟨rfl, letters⟩, rfl⟩ := mem_ways_literal.mp wordWay
  have wordInside : edge + 8 ≤ i := by
    have := (Subject.has_upTo.mp (letters 7 (by decide))).1
    omega
  have spelled := (literal_iff wordInside).mp letters
  obtain ⟨firstOrder, firstStand, -⟩ := stands_of_mem_greedy firstWay
  obtain ⟨secondOrder, secondStand, -⟩ := stands_of_mem_greedy secondWay
  obtain ⟨thirdOrder, thirdStand, -⟩ := stands_of_mem_greedy thirdWay
  obtain ⟨atEnd, -⟩ := mem_ways_where.mp endWay
  have stop : (Subject.upTo t i).stop = i := Nat.min_eq_left inText
  refine ⟨⟨spelled, a, firstOrder, firstStand, a', ?_, b, secondOrder, secondStand, b', ?_, ?_⟩,
    (wordEdge_iff (by omega) (spelled 0 (by decide))).mp atEdge⟩
  · rcases starWay with way | ⟨same, -⟩
    · obtain ⟨here, ends, -⟩ := getElem?_of_mem_char way
      exact .inr ⟨here, ends⟩
    · exact .inl same
  · rcases ampersandWay with way | ⟨same, -⟩
    · obtain ⟨here, ends, -⟩ := getElem?_of_mem_char way
      exact .inr ⟨here, ends⟩
    · exact .inl same
  · -- A newline right before the name is one more blank.
    simp only [stop, Bool.or_eq_true, Bool.and_eq_true, beq_iff_eq] at atEnd
    rcases atEnd with rfl | ⟨nearEnd, newline⟩
    · exact ⟨thirdOrder, thirdStand⟩
    · obtain ⟨d, here, isNewline⟩ := Subject.getElem?_of_has newline
      rw [← nearEnd]
      refine ⟨by omega, thirdStand.append (.one here ?_)⟩
      rw [beq_iff_eq.mp isNewline]
      decide

theorem mem_ways_of_functionWord {k : Nat} (inText : i ≤ t.size) (word : FunctionWord t k i)
    (fresh : ∀ c, 0 < k → t[k - 1]? = some c → isWordChar c = false) :
    functionKeyword.ways (.upTo t i) k [] ≠ [] := by
  obtain ⟨spelled, a, firstOrder, firstStand, a', star, b, secondOrder, secondStand, b', ampersand,
    thirdOrder, thirdStand⟩ := word
  have stop : (Subject.upTo t i).stop = i := Nat.min_eq_left inText
  have starBound : a ≤ a' := by omega
  have ampersandBound : b ≤ b' := by omega
  have blanksWay : ∀ {l r : Nat} {caps : Captures}, l ≤ r → r ≤ i → Stands t isBlank l r →
      (r, caps) ∈ blanks.ways (.upTo t i) l caps := by
    intro l r caps order bound stands
    refine mem_ways_greedy.mpr ⟨order, ?_, rfl⟩
    exact fun o from_ inside => Subject.has_upTo.mpr ⟨by omega, stands o from_ inside⟩
  have optionWay : ∀ {c : Char} {l r : Nat} {caps : Captures},
      (r = l ∨ t[l]? = some c ∧ r = l + 1) → r ≤ i →
        (r, caps) ∈ (opt (char c)).ways (.upTo t i) l caps := by
    rintro c l r caps (rfl | ⟨here, rfl⟩) bound
    · exact mem_ways_opt.mpr (.inr ⟨rfl, rfl⟩)
    · refine mem_ways_opt.mpr (.inl (mem_ways_one.mpr ⟨?_, rfl, rfl⟩))
      exact Subject.has_upTo.mpr ⟨by omega, c, here, by simp⟩
  -- All blanks before the name are passed over, so the keyword is looked for up to the name itself.
  apply List.ne_nil_of_mem (a := (i, ([] : Captures)))
  simp only [functionKeyword, mem_ways_append]
  refine ⟨i, [], ⟨b', [], ⟨b, [], ⟨a', [], ⟨a, [], ⟨k + 8, [], ⟨k, [], ?_, ?_⟩,
    blanksWay firstOrder (by omega) firstStand⟩, optionWay star (by omega)⟩,
    blanksWay secondOrder (by omega) secondStand⟩, optionWay ampersand thirdOrder⟩,
    blanksWay thirdOrder (Nat.le_refl i) thirdStand⟩, ?_⟩
  · exact mem_ways_where.mpr
      ⟨(wordEdge_iff (by omega) (spelled 0 (by decide))).mpr fresh, rfl, rfl⟩
  · exact mem_ways_literal.mpr ⟨⟨rfl, (literal_iff (by simp; omega)).mpr spelled⟩, rfl⟩
  · exact mem_ways_where.mpr ⟨by simp [stop], rfl, rfl⟩

theorem followsKeyword_iff (inText : i ≤ t.size) :
    followsKeyword t i = true ↔
      ∃ k, FunctionWord t k i ∧ (∀ c, 0 < k → t[k - 1]? = some c → isWordChar c = false)
        ∧ i ≤ k + keywordReach := by
  unfold followsKeyword
  rw [findFrom?_isSome]
  constructor
  · rintro ⟨k, from_, upTo, matches_⟩
    obtain ⟨word, fresh⟩ := functionWord_of_mem_ways inText matches_
    exact ⟨k, word, fresh, by omega⟩
  · rintro ⟨k, word, fresh, near⟩
    have before : k ≤ i := by
      obtain ⟨-, a, _, -, a', _, b, _, -, b', _, _, -⟩ := word
      omega
    exact ⟨k, by omega, by omega, mem_ways_of_functionWord inText word fresh⟩

/-! ## Calls -/

def callSites (t : Text) : List (Nat × String) :=
  ((callPattern.findAll (.ofText t)).filter fun m =>
      !(declaredOffsets t).contains (m.groupStart 1) && !followsKeyword t (m.groupStart 1)).map
    fun m => (m.groupStart 1, m.groupText t 1)

theorem calledNames_eq (t : Text) : calledNames t = (callSites t).map (·.2) := by
  simp [calledNames, callSites, Std.HashSet.contains_ofList, Function.comp_def]

theorem mem_callSites :
    (i, n) ∈ callSites t ↔
      (∃ m ∈ callPattern.findAll (.ofText t), m.groupStart 1 = i ∧ m.groupText t 1 = n)
        ∧ i ∉ declaredOffsets t ∧ followsKeyword t i = false := by
  simp only [callSites, List.mem_map, List.mem_filter, Prod.mk.injEq, Bool.and_eq_true,
    Bool.not_eq_true', List.contains_eq_mem, decide_eq_false_iff_not]
  constructor
  · rintro ⟨m, ⟨found, undeclared, unkeyed⟩, rfl, rfl⟩
    exact ⟨⟨m, found, rfl, rfl⟩, undeclared, unkeyed⟩
  · rintro ⟨⟨m, found, rfl, rfl⟩, undeclared, unkeyed⟩
    exact ⟨m, ⟨found, undeclared, unkeyed⟩, rfl, rfl⟩

/-- The call of a name from one offset up to its parenthesis. -/
structure CallAt (t : Text) (m : Match) (nameEnd paren : Nat) : Prop where
  recorded : m.span? 1 = some (m.start, nameEnd)
  startsFresh : ∀ c, 0 < m.start → t[m.start - 1]? = some c → isNameChar c = false
  startsName : ∃ c, t[m.start]? = some c ∧ isNameStart c = true
  nonempty : m.start < nameEnd
  run : Stands t isNameChar m.start nameEnd
  order : nameEnd ≤ paren
  blanks : Stands t isBlank nameEnd paren
  opens : t[paren]? = some '('
  stops : m.stop = paren + 1

theorem CallAt.groupStart {m : Match} {nameEnd paren : Nat} (call : CallAt t m nameEnd paren) :
    m.groupStart 1 = m.start := by
  rw [Match.groupStart, call.recorded]
  rfl

theorem callAt_of_isMatch {m : Match} (matched : callPattern.IsMatch (.ofText t) m) :
    ∃ nameEnd paren, CallAt t m nameEnd paren := by
  simp only [IsMatch, callPattern, mem_ways_append] at matched
  obtain ⟨paren, _, ⟨nameEnd, _, ⟨start, _, freshWay, nameWay⟩, blanksWay⟩, openWay⟩ := matched
  obtain ⟨fresh, rfl, rfl⟩ := mem_ways_where.mp freshWay
  obtain ⟨_, identifierWay, rfl⟩ := mem_ways_group.mp nameWay
  simp only [identifier, mem_ways_append] at identifierWay
  obtain ⟨second, _, firstWay, othersWay⟩ := identifierWay
  obtain ⟨present, rfl, rfl⟩ := mem_ways_one.mp firstWay
  obtain ⟨othersOrder, othersStand, rfl⟩ := stands_of_mem_greedy othersWay
  obtain ⟨blanksOrder, blanksStand, rfl⟩ := stands_of_mem_greedy blanksWay
  obtain ⟨openHere, stops, captured⟩ := getElem?_of_mem_char openWay
  obtain ⟨c, here, starts⟩ := Subject.getElem?_of_has present
  refine ⟨nameEnd, paren, ?_, ?_, ⟨c, here, starts⟩, by omega, ?_, by omega, blanksStand, openHere,
    stops⟩
  · rw [Match.span?, captured]
    rfl
  · intro d positive before
    cases inName : isNameChar d with
    | false => rfl
    | true =>
      have preceded : (Subject.ofText t).hasBefore isNameChar m.start = true :=
        Subject.hasBefore_iff.mpr ⟨positive, Subject.has_ofText.mpr ⟨d, before, inName⟩⟩
      rw [preceded] at fresh
      cases fresh
  · exact Stands.append (.one here (isNameChar_of_isNameStart starts)) othersStand

/-- No call covers the start of a name. -/
theorem not_covered {m : Match} {nameEnd paren : Nat} (call : CallAt t m nameEnd paren)
    (occurs : NameAt t n i) (after : m.start < i) (before : i < m.stop) : False := by
  obtain ⟨c, here, inName⟩ := occurs.stands i (Nat.le_refl i) (by have := occurs.nonempty; omega)
  -- A call is a name, blanks and a parenthesis. A name starts in none of these.
  rcases Nat.lt_or_ge i nameEnd with within | behind
  · obtain ⟨d, previous, alsoName⟩ := call.run (i - 1) (by omega) (by omega)
    rw [occurs.startsFresh d (by omega) previous] at alsoName
    cases alsoName
  · rcases Nat.lt_or_ge i paren with blank | last
    · obtain ⟨d, same, isBlank⟩ := call.blanks i behind blank
      rw [here] at same
      cases same
      rw [not_isNameChar_of_isBlank isBlank] at inName
      cases inName
    · obtain rfl : i = paren := by
        have := call.stops
        omega
      rw [call.opens] at here
      cases here
      revert inName
      decide

theorem NameAt.head?_eq (occurs : NameAt t n i) : t[i]? = n.toList.head? := by
  have first := occurs.here 0 occurs.nonempty
  rw [Nat.add_zero] at first
  rw [first, List.head?_eq_getElem?]

theorem NameAt.inText (occurs : NameAt t n i) : i < t.size := by
  obtain ⟨c, here, -⟩ := occurs.stands i (Nat.le_refl i) (by have := occurs.nonempty; omega)
  exact (Array.getElem?_eq_some_iff.mp here).1

theorem NameAt.slice_eq (occurs : NameAt t n i) : t.slice i (i + n.length) = n := by
  apply String.toList_inj.mp
  rw [Text.slice, Text.asString, String.toList_ofList]
  apply List.ext_getElem?
  intro k
  rw [Array.getElem?_toList, Array.getElem?_extract]
  by_cases inName : k < n.length
  · have last := occurs.stands (i + n.length - 1) (by omega) (by omega)
    obtain ⟨c, here, -⟩ := last
    obtain ⟨bound, -⟩ := Array.getElem?_eq_some_iff.mp here
    rw [if_pos (by omega), occurs.here k inName]
  · rw [if_neg (by omega), List.getElem?_eq_none (by rw [String.length_toList]; omega)]

/-- A match of the call pattern at a name in call position records the name. -/
theorem groupText_of_called {m : Match} {nameEnd paren : Nat} (call : CallAt t m nameEnd paren)
    (occurs : NameAt t n m.start) : m.groupText t 1 = n := by
  obtain ⟨c, next, other⟩ := exists_not_name call.order call.blanks call.opens (by decide)
  have ends := occurs.end_eq (Nat.le_of_lt call.nonempty) call.run next other
  rw [Match.groupText, Match.group?, call.recorded, ends]
  exact occurs.slice_eq

/-- A name in call position that starts as an identifier is matched. -/
theorem exists_matchAt?_of_called (occurs : NameAt t n i) (opens : OpensAt t (i + n.length))
    (starts : ∃ c, n.toList.head? = some c ∧ isNameStart c = true) :
    ∃ m, callPattern.matchAt? (.ofText t) i = some m := by
  obtain ⟨c, first, startsName⟩ := starts
  obtain ⟨paren, order, blanksStand, openHere⟩ := opens
  have nonempty := occurs.nonempty
  have fresh : (Subject.ofText t).hasBefore isNameChar i = false := by
    rw [← Bool.not_eq_true, Subject.hasBefore_iff, Subject.has_ofText]
    rintro ⟨positive, d, before, inName⟩
    rw [occurs.startsFresh d positive before] at inName
    cases inName
  suffices way : (paren + 1, [(1, i, i + n.length)]) ∈ callPattern.ways (.ofText t) i [] from
    exists_matchAt? way
  simp only [callPattern, identifier, mem_ways_append, mem_ways_group]
  refine ⟨paren, [(1, i, i + n.length)], ⟨i + n.length, [(1, i, i + n.length)],
    ⟨i, [], ?_, [], ⟨i + 1, [], ?_, ?_⟩, rfl⟩, ?_⟩, ?_⟩
  · exact mem_ways_where.mpr ⟨by simp [fresh], rfl, rfl⟩
  · exact mem_ways_one.mpr
      ⟨Subject.has_ofText.mpr ⟨c, occurs.head?_eq.trans first, startsName⟩, rfl, rfl⟩
  · refine mem_ways_greedy.mpr ⟨by omega, ?_, rfl⟩
    exact fun k from_ inside => Subject.has_ofText.mpr (occurs.stands k (by omega) inside)
  · refine mem_ways_greedy.mpr ⟨order, ?_, rfl⟩
    exact fun k from_ inside => Subject.has_ofText.mpr (blanksStand k from_ inside)
  · exact mem_ways_one.mpr ⟨Subject.has_ofText.mpr ⟨'(', openHere, by decide⟩, rfl, rfl⟩

/-- A name in call position that starts as an identifier is one of the matches. -/
theorem exists_match_of_called (occurs : NameAt t n i) (opens : OpensAt t (i + n.length))
    (starts : ∃ c, n.toList.head? = some c ∧ isNameStart c = true) :
    ∃ m ∈ callPattern.findAll (.ofText t), m.groupStart 1 = i ∧ m.groupText t 1 = n := by
  obtain ⟨m, matched⟩ := exists_matchAt?_of_called occurs opens starts
  obtain ⟨rfl, isMatch⟩ := isMatch_of_matchAt? matched
  obtain ⟨nameEnd, paren, call⟩ := callAt_of_isMatch isMatch
  -- The search resumes behind each match, but no match reaches into a name.
  rcases covered_of_matchAt? (Nat.le_of_lt occurs.inText) matched with
    found | ⟨earlier, found, after, before⟩
  · exact ⟨m, found, call.groupStart, groupText_of_called call occurs⟩
  · obtain ⟨_, _, earlierCall⟩ := callAt_of_isMatch (isMatch_of_mem_findAll found)
    exact (not_covered earlierCall occurs after before).elim

theorem followsKeyword_eq_false_iff (inText : i ≤ t.size) (noKeyword : ¬AfterKeyword t i) :
    followsKeyword t i = false ↔ ¬AfterFunctionVariable t i := by
  rw [← Bool.not_eq_true, followsKeyword_iff inText]
  apply not_congr
  constructor
  · rintro ⟨k, word, fresh, near⟩
    have glued : ¬∀ c, 0 < k → t[k - 1]? = some c → isNameChar c = false :=
      fun whole => noKeyword ⟨k, word, whole⟩
    simp only [Classical.not_forall, Bool.not_eq_false] at glued
    obtain ⟨c, positive, before, inName⟩ := glued
    -- The only character of a name at which a word ends as well is the dollar sign.
    have dollar : c = '$' := by
      rcases Decidable.em (c = '$') with same | other
      · exact same
      · have := isWordChar_of_isNameChar inName other
        rw [fresh c positive before] at this
        cases this
    exact ⟨k, word, positive, dollar ▸ before, near⟩
  · rintro ⟨k, word, positive, before, near⟩
    refine ⟨k, word, ?_, near⟩
    intro c _ same
    rw [before] at same
    cases same
    decide

/-- Which of the calls that do not follow the keyword are recorded. -/
theorem mem_callSites_iff (occurs : NameAt t n i) (opens : OpensAt t (i + n.length))
    (noKeyword : ¬AfterKeyword t i) :
    (i, n) ∈ callSites t ↔
      (∃ c, n.toList.head? = some c ∧ isNameStart c = true) ∧ ¬AfterFunctionVariable t i
        ∧ i ∉ declaredOffsets t := by
  rw [mem_callSites, followsKeyword_eq_false_iff (Nat.le_of_lt occurs.inText) noKeyword]
  constructor
  · rintro ⟨⟨m, found, starts, -⟩, undeclared, noVariable⟩
    obtain ⟨_, _, call⟩ := callAt_of_isMatch (isMatch_of_mem_findAll found)
    rw [call.groupStart] at starts
    subst starts
    refine ⟨?_, noVariable, undeclared⟩
    rw [← occurs.head?_eq]
    exact call.startsName
  · rintro ⟨starts, noVariable, undeclared⟩
    exact ⟨exists_match_of_called occurs opens starts, undeclared, noVariable⟩

theorem mem_fileReferences_of_callSites (called : (i, n) ∈ callSites t) (nonempty : 0 < n.length) :
    n ∈ fileReferences t := by
  have inCalled : n ∈ calledNames t := by
    rw [calledNames_eq]
    exact List.mem_map.mpr ⟨(i, n), called, rfl⟩
  simp only [fileReferences, List.mem_filter, List.mem_append]
  refine ⟨.inl (.inl (.inl (.inl (.inl (.inl inCalled))))), ?_⟩
  simp only [Bool.not_eq_true', ← Bool.not_eq_true, String.isEmpty_iff]
  rintro rfl
  exact absurd nonempty (by decide)

/-- A file of the project holds the text, and the limit on what is looked at leaves it whole. -/
def ScansInFull (input : QualityInput) (settings : Settings) (t : Text) : Prop :=
  ∃ path content, (path, content) ∈ input.referenceFiles ∧ Text.ofString content = t
    ∧ ∀ cut, settings.scanCharLimit = .ok cut → scannedText content cut = t

theorem not_reported_of_fileReferences {input : QualityInput} {settings : Settings}
    (scans : ScansInFull input settings t) (used : n ∈ fileReferences t) {references : References}
    (collected : input.references settings = .ok references) {findings : QualityFindings}
    (found : QualityFindings.ofInput input references settings = .ok findings) {issue : Issue}
    (member : issue ∈ findings.issues) (kind : issue.kind = "unused_function") :
    issue.name ≠ .str n := by
  obtain ⟨path, content, inFiles, -, whole⟩ := scans
  obtain ⟨cut, limited, rfl⟩ :=
    References.eq_ofFiles_of_collect collected (List.ne_nil_of_mem inFiles)
  have inUse : n ∈ References.ofFiles input.referenceFiles cut :=
    References.mem_ofFiles.mpr ⟨(path, content), inFiles, by rw [whole cut limited]; exact used⟩
  exact QualityFindings.not_reported_of_used found inUse member (.inl kind)

/-- A name in call position that does not follow the keyword `function` is recorded as called exactly
if it starts with an ASCII letter, an underscore or a dollar sign, no variable called `$function`
stands right before it and no header of a method is found at it. Headers are found only where a
statement may start and a block follows. A recorded name is in use, and no project that scans the
text in full reports an unused function of that name. -/
theorem undeclared_call_recorded_iff (t : Text) (n : String) (i : Nat) (occurs : NameAt t n i)
    (opens : OpensAt t (i + n.length)) (noKeyword : ¬AfterKeyword t i) :
    ((i, n) ∈ callSites t ↔
        (∃ c, n.toList.head? = some c ∧ isNameStart c = true) ∧ ¬AfterFunctionVariable t i
          ∧ i ∉ declaredOffsets t)
      ∧ (i ∈ declaredOffsets t → LeadsToName t i ∧ HeadsBlock t (i + n.length))
      ∧ ((i, n) ∈ callSites t →
        n ∈ fileReferences t
          ∧ ∀ input settings, ScansInFull input settings t →
            ∀ references, input.references settings = .ok references →
              ∀ findings, QualityFindings.ofInput input references settings = .ok findings →
                ∀ issue ∈ findings.issues, issue.kind = "unused_function" → issue.name ≠ .str n) := by
  refine ⟨mem_callSites_iff occurs opens noKeyword, header_of_declared occurs opens,
    fun called => ?_⟩
  have used := mem_fileReferences_of_callSites called occurs.nonempty
  refine ⟨used, ?_⟩
  intro input settings scans references collected findings found issue member kind
  exact not_reported_of_fileReferences scans used collected found member kind

-- A conditional expression with a call at the start of a line is taken for a header; after other
-- words on the line the same expression is not.
example : declaredOffsets (Text.ofString "ok ?\n  foo(x) : {}") = [7]
    ∧ callSites (Text.ofString "return ok ? foo(x) : {}") = [(12, "foo")] := by
  decide +kernel

/-- A project that declares a function in one file and calls it in another. -/
def oneCall : QualityInput where
  contents := [("call.js", "foo();")]
  obfuscated := []
  outlines := .list []
  dependencies := .list []
  declared :=
    ⟨[⟨.str "foo", .function, .str "lib.js", .int 1, .str "javascript", .null, .null⟩], [], []⟩

def oneCallSettings : Settings where
  root := "project"

theorem not_functionWord_zero {k : Nat} : ¬FunctionWord t k 0 := by
  rintro ⟨-, a, _, -, a', _, b, _, -, b', _, _, -⟩
  omega

theorem oneCall_not_reported :
    "foo" ∈ fileReferences (Text.ofString "foo();")
      ∧ ∃ references findings, oneCall.references oneCallSettings = .ok references
        ∧ QualityFindings.ofInput oneCall references oneCallSettings = .ok findings
        ∧ ∀ issue ∈ findings.issues, issue.kind = "unused_function" → issue.name ≠ .str "foo" := by
  have opens : OpensAt (Text.ofString "foo();") (0 + "foo".length) :=
    ⟨3, by decide, .empty, by decide⟩
  have noKeyword : ¬AfterKeyword (Text.ofString "foo();") 0 :=
    fun ⟨_, word, _⟩ => not_functionWord_zero word
  have noVariable : ¬AfterFunctionVariable (Text.ofString "foo();") 0 :=
    fun ⟨_, word, _⟩ => not_functionWord_zero word
  obtain ⟨recorded, -, clean⟩ := undeclared_call_recorded_iff (Text.ofString "foo();") "foo" 0
    (by decide +kernel) opens noKeyword
  obtain ⟨used, unreported⟩ :=
    clean (recorded.mpr ⟨⟨'f', by decide, by decide⟩, noVariable, by decide +kernel⟩)
  have numbers : oneCallSettings.NumbersGiven := ⟨⟨_, rfl⟩, ⟨_, rfl⟩, ⟨_, rfl⟩, ⟨_, rfl⟩⟩
  have collected := References.collect_eq_ofFiles oneCall.referenceFiles (some 1000000)
  have noOutlines : outlinesByPath oneCall.outlines = .ok [] := by
    simp [outlinesByPath, oneCall, Value.members, Value.sortedBy, bind, Except.bind, pure, Except.pure]
  have noImports : unusedImports oneCall.outlines oneCall.contents = .ok [] := by
    rw [unusedImports, noOutlines]
    rfl
  have noLarge : largeFunctions oneCall.outlines oneCall.contents = .ok [] := by
    rw [largeFunctions, noOutlines]
    rfl
  obtain ⟨findings, found, -⟩ :=
    QualityFindings.exists_ofInput (i := oneCall) numbers rfl rfl rfl noImports rfl noLarge
  refine ⟨used, _, findings, collected, found, ?_⟩
  refine unreported oneCall oneCallSettings ⟨"call.js", "foo();", ?_, rfl, ?_⟩ _ collected _ found
  · simp [QualityInput.referenceFiles, Contents.filled, Contents.sorted, oneCall]
  · rintro cut limited
    cases limited
    decide

end Reference

end Surveyor
