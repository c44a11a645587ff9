import Surveyor.Proofs.Source.DeclarationLines
import Surveyor.Proofs.Text.Remainder
import Surveyor.Quality.FunctionSize

/-! # Lines of a function and the block of its body

The lines of a function are counted line by line from its declaration, the block of its body is found
character by character from its brace. Both agree on a brace that opens the first block from the start
of the line on (`FirstBlock`): up to it the depth is back at zero, within its block the depth stays
positive, so no end of a line stops the count before the line on which the block ends. What is carried
along is the state of the count at an offset (`Reaches`). The brace need not be the one of the body,
since whatever else is opened on the line of the declaration is counted, too.
-/

namespace Surveyor

open Pattern

/-! ## Lines in a text -/

def lineStart (t : Text) : Nat → Nat
  | 0 => 0
  | i + 1 => if t[i]? = some '\n' then i + 1 else lineStart t i

/-- The offset at which the line of an offset ends: its newline, or the end of the text. -/
def lineStop (t : Text) (i : Nat) : Nat := i + ((t.toList.drop i).takeWhile (· != '\n')).length

variable {t : Text}

theorem lineStart_le (t : Text) (i : Nat) : lineStart t i ≤ i := by
  induction i with
  | zero => exact Nat.le_refl 0
  | succ i inductionHypothesis =>
    rw [lineStart]
    split
    · exact Nat.le_refl _
    · exact Nat.le_succ_of_le inductionHypothesis

theorem lt_lineStart {i k : Nat} (newline : t[k]? = some '\n') (before : k < i) : k < lineStart t i := by
  induction i with
  | zero => omega
  | succ i inductionHypothesis =>
    rw [lineStart]
    by_cases last : t[i]? = some '\n'
    · rw [if_pos last]
      exact before
    · rw [if_neg last]
      apply inductionHypothesis
      by_cases same : k = i
      · exact absurd (same ▸ newline) last
      · omega

theorem lineStart_cases (t : Text) (i : Nat) :
    lineStart t i = 0 ∨ ∃ k, lineStart t i = k + 1 ∧ t[k]? = some '\n' := by
  induction i with
  | zero => exact .inl rfl
  | succ i inductionHypothesis =>
    rw [lineStart]
    by_cases newline : t[i]? = some '\n'
    · rw [if_pos newline]
      exact .inr ⟨i, rfl, newline⟩
    · rw [if_neg newline]
      exact inductionHypothesis

theorem lineStart_lineStart (t : Text) (i : Nat) : lineStart t (lineStart t i) = lineStart t i := by
  rcases lineStart_cases t i with front | ⟨k, behind, newline⟩
  · rw [front]
    rfl
  · rw [behind, lineStart, if_pos newline]

theorem ne_newline_of_lt_lineStop {i k : Nat} (from_ : i ≤ k) (before : k < lineStop t i) :
    ∃ c, t[k]? = some c ∧ c ≠ '\n' := by
  have inStretch : k - i < ((t.toList.drop i).takeWhile (· != '\n')).length := by
    unfold lineStop at before
    omega
  have here := (List.takeWhile_prefix (l := t.toList.drop i) (· != '\n')).getElem inStretch
  have inText : k < t.size := by
    have shorter := (List.takeWhile_prefix (l := t.toList.drop i) (· != '\n')).length_le
    simp only [List.length_drop, Array.length_toList] at shorter
    omega
  refine ⟨t[k], Array.getElem?_eq_getElem inText, ?_⟩
  have other := List.all_eq_true.mp (List.all_takeWhile (p := (· != '\n'))) _ (List.getElem_mem inStretch)
  rw [here, List.getElem_drop] at other
  simp only [Nat.add_sub_cancel' from_, Array.getElem_toList] at other
  simpa using other

theorem drop_lineStop (t : Text) (i : Nat) :
    t.toList.drop (lineStop t i) = [] ∨ ∃ rest, t.toList.drop (lineStop t i) = '\n' :: rest := by
  have behind : t.toList.drop (lineStop t i) = (t.toList.drop i).dropWhile (· != '\n') := by
    rw [lineStop, ← List.drop_drop, Text.drop_length_takeWhile]
  rw [behind]
  cases rest : (t.toList.drop i).dropWhile (· != '\n') with
  | nil => exact .inl rfl
  | cons c rest' =>
    have stopped := List.head?_dropWhile_not (· != '\n') (t.toList.drop i)
    rw [rest] at stopped
    exact .inr ⟨rest', by simpa using stopped⟩

theorem lineOf_succ {i : Nat} {c : Char} (here : t[i]? = some c) :
    (LineIndex.ofText t 1).lineOf (i + 1 : Nat)
      = (LineIndex.ofText t 1).lineOf i + if c = '\n' then 1 else 0 := by
  rw [LineIndex.lineOf_ofText, LineIndex.lineOf_ofText, List.take_add_one, List.count_append,
    Array.getElem?_toList, here]
  by_cases newline : c = '\n'
  · subst newline
    simp
    omega
  · simp [newline]

theorem lineOf_lineStart (i : Nat) (inText : i ≤ t.size) :
    (LineIndex.ofText t 1).lineOf (lineStart t i) = (LineIndex.ofText t 1).lineOf i := by
  induction i with
  | zero => rfl
  | succ i inductionHypothesis =>
    rw [lineStart]
    by_cases newline : t[i]? = some '\n'
    · rw [if_pos newline]
    · rw [if_neg newline, inductionHypothesis (by omega),
        lineOf_succ (Array.getElem?_eq_getElem (by omega : i < t.size)), if_neg, Int.add_zero]
      intro same
      exact newline (same ▸ Array.getElem?_eq_getElem (by omega))

/-- Behind a separator the parts are those of the rest. -/
theorem Text.drop_splitChars (separator : Char) (before rest : List Char) :
    (splitChars separator (before ++ separator :: rest)).drop (before.count separator + 1)
      = splitChars separator rest := by
  rw [splitChars_append_cons, ← length_splitChars, List.drop_left]

/-- From the start of a line on, the lines of a text are those of what stands there. -/
theorem drop_textLines {start : Nat} (isStart : lineStart t start = start) :
    (textLines t).drop ((t.toList.take start).count '\n')
      = Text.splitChars '\n' (t.toList.drop start) := by
  rcases lineStart_cases t start with front | ⟨k, behind, newline⟩
  · rw [isStart] at front
    rw [front]
    rfl
  · rw [isStart] at behind
    subst behind
    have whole : t.toList = t.toList.take k ++ '\n' :: t.toList.drop (k + 1) := by
      rw [← Text.drop_eq_cons newline, List.take_append_drop]
    have counted : (t.toList.take (k + 1)).count '\n' = (t.toList.take k).count '\n' + 1 := by
      rw [List.take_add_one, List.count_append, Array.getElem?_toList, newline]
      rfl
    have behindNewline := Text.drop_splitChars '\n' (t.toList.take k) (t.toList.drop (k + 1))
    rw [← whole] at behindNewline
    rw [counted]
    exact behindNewline

/-! ## The count over characters -/

/-- The count of lines, made character by character: a line ends with its newline, or with the text. -/
def linesOver (depth : Int) (opened : Bool) (count : Nat) : List Char → Nat
  | [] => if opened then count + 1 else count
  | c :: rest =>
    if c = '\n' then
      if opened then
        if depth ≤ 0 then count + 1 else linesOver depth opened (count + 1) rest
      else linesOver depth opened count rest
    else linesOver (depth + braceStep c) (opened || c == '{') count rest

theorem linesInBraces_cons (depth : Int) (opened : Bool) (count : Nat) (c : Char) (line : List Char)
    (rest : List (List Char)) :
    linesInBraces depth opened count ((c :: line) :: rest)
      = linesInBraces (depth + braceStep c) (opened || c == '{') count (line :: rest) := by
  have either : (opened || (c :: line).contains '{') = (opened || c == '{' || line.contains '{') := by
    rw [List.contains_cons, Bool.or_assoc, Bool.beq_comm]
  simp only [linesInBraces, List.foldl_cons, either]

theorem linesInBraces_splitChars (depth : Int) (opened : Bool) (count : Nat) (chars : List Char) :
    linesInBraces depth opened count (Text.splitChars '\n' chars)
      = linesOver depth opened count chars := by
  induction chars generalizing depth opened count with
  | nil =>
    cases opened with
    | false => rfl
    | true => exact ite_self (count + 1)
  | cons c rest inductionHypothesis =>
    rw [linesOver]
    by_cases newline : c = '\n'
    · subst newline
      rw [Text.splitChars_cons_self, if_pos rfl]
      simp only [linesInBraces, List.foldl_nil, List.contains_nil, Bool.or_false, inductionHypothesis]
    · obtain ⟨part, others, split⟩ := List.exists_cons_of_ne_nil (Text.splitChars_ne_nil '\n' rest)
      rw [Text.splitChars_cons_of_ne newline split, linesInBraces_cons, ← split, inductionHypothesis,
        if_neg newline]

/-- Counted from the start of a line on, the lines of a function are those over the characters. -/
theorem functionLines_of_lineStart {start : Nat} (isStart : lineStart t start = start) :
    functionLines (textLines t) ((LineIndex.ofText t 1).lineOf start - 1)
      = linesOver 0 false 0 (t.toList.drop start) := by
  have fewer : (t.toList.take start).count '\n' ≤ (textLines t).length := by
    rw [textLines, Text.length_splitChars]
    exact Nat.le_succ_of_le ((List.take_sublist start t.toList).count_le '\n')
  have clamped : Text.clampIndex (textLines t).length ((LineIndex.ofText t 1).lineOf start - 1)
      = (t.toList.take start).count '\n' := by
    rw [LineIndex.lineOf_ofText, Text.clampIndex]
    split <;> omega
  rw [functionLines, clamped, drop_textLines isStart, linesInBraces_splitChars]

/-- The count from an offset on has come to a depth and a number of lines at another offset. -/
def Reaches (t : Text) (start : Nat) (depth : Int) (opened : Bool) (count i : Nat) : Prop :=
  linesOver 0 false 0 (t.toList.drop start) = linesOver depth opened count (t.toList.drop i)

namespace Reaches

variable {start i count : Nat} {depth : Int} {opened : Bool} {c : Char}

theorem next (reached : Reaches t start depth opened count i) (here : t[i]? = some c)
    (inLine : c ≠ '\n') : Reaches t start (depth + braceStep c) (opened || c == '{') count (i + 1) := by
  rw [Reaches, Text.drop_eq_cons here, linesOver, if_neg inLine] at reached
  exact reached

/-- Lines before the first brace are not counted. -/
theorem nextLine (reached : Reaches t start depth false count i) (here : t[i]? = some '\n') :
    Reaches t start depth false count (i + 1) := by
  rw [Reaches, Text.drop_eq_cons here, linesOver, if_pos rfl] at reached
  exact reached

theorem nextLine_of_pos (reached : Reaches t start depth true count i) (here : t[i]? = some '\n')
    (inside : 0 < depth) : Reaches t start depth true (count + 1) (i + 1) := by
  rw [Reaches, Text.drop_eq_cons here, linesOver, if_pos rfl, if_pos rfl, if_neg (by omega)] at reached
  exact reached

/-- A stretch without a newline changes nothing but the depth. -/
theorem inLine (reached : Reaches t start depth true count i) {j : Nat} (order : i ≤ j)
    (unbroken : ∀ k, i ≤ k → k < j → ∃ c, t[k]? = some c ∧ c ≠ '\n') :
    Reaches t start (depth + depthBetween t i j) true count j := by
  induction j with
  | zero =>
    obtain rfl : i = 0 := by omega
    rwa [depthBetween_self, Int.add_zero]
  | succ j inductionHypothesis =>
    by_cases atEnd : i = j + 1
    · subst atEnd
      rwa [depthBetween_self, Int.add_zero]
    · obtain ⟨c, here, other⟩ := unbroken j (by omega) (by omega)
      have before := inductionHypothesis (by omega) fun k from_ inside => unbroken k from_ (by omega)
      have further := before.next here other
      rw [Bool.true_or] at further
      rw [depthBetween_add t (show i ≤ j by omega) (Nat.le_succ j), depthBetween_succ here,
        ← Int.add_assoc]
      exact further

/-- The count stops with a line at whose end no brace is left open. -/
theorem stops (reached : Reaches t start depth true count i)
    (closes : depth + depthBetween t i (lineStop t i) ≤ 0) :
    linesOver 0 false 0 (t.toList.drop start) = count + 1 := by
  have order : i ≤ lineStop t i := Nat.le_add_right i _
  have atEnd := reached.inLine order fun k => ne_newline_of_lt_lineStop
  rw [Reaches] at atEnd
  rw [atEnd]
  rcases drop_lineStop t i with ended | ⟨rest, newline⟩
  · rw [ended]
    rfl
  · rw [newline, linesOver, if_pos rfl, if_pos rfl, if_pos closes]

end Reaches

/-! ## The first block -/

/-- The brace at an offset opens the first block from another one on: no brace is opened there on an
earlier line, and up to the brace as many are closed as opened. -/
structure FirstBlock (t : Text) (start opening : Nat) : Prop where
  from_ : start ≤ opening
  opens : t[opening]? = some '{'
  noneEarlier : ∀ k, start ≤ k → k < lineStart t opening → t[k]? ≠ some '{'
  balanced : depthBetween t start opening = 0

namespace FirstBlock

variable {start opening : Nat}

theorem reaches_of_le (block : FirstBlock t start opening) {i : Nat} (from_ : start ≤ i)
    (upTo : i ≤ opening) :
    ∃ opened, Reaches t start (depthBetween t start i) opened 0 i
      ∧ (opened = true → ∃ k, start ≤ k ∧ k < i ∧ t[k]? = some '{') := by
  induction i with
  | zero =>
    obtain rfl : start = 0 := by omega
    rw [depthBetween_self]
    exact ⟨false, rfl, nofun⟩
  | succ i inductionHypothesis =>
    by_cases atStart : start = i + 1
    · subst atStart
      rw [depthBetween_self]
      exact ⟨false, rfl, nofun⟩
    · obtain ⟨opened, reached, evidence⟩ := inductionHypothesis (by omega) (by omega)
      obtain ⟨inText, -⟩ := Array.getElem?_eq_some_iff.mp block.opens
      have here := Array.getElem?_eq_getElem (show i < t.size by omega)
      rw [depthBetween_add t (show start ≤ i by omega) (Nat.le_succ i), depthBetween_succ here]
      by_cases newline : t[i] = '\n'
      · rw [newline] at here ⊢
        -- On a line before the one of the brace nothing has been opened.
        have unopened : opened = false := by
          apply Bool.eq_false_iff.mpr
          intro isOpened
          obtain ⟨k, after, before, brace⟩ := evidence isOpened
          have earlier := lt_lineStart here (show i < opening by omega)
          exact block.noneEarlier k after (by omega) brace
        subst unopened
        refine ⟨false, ?_, nofun⟩
        simpa [braceStep] using reached.nextLine here
      · refine ⟨opened || t[i] == '{', reached.next here newline, ?_⟩
        intro isOpened
        rcases (Bool.or_eq_true _ _).mp isOpened with before | brace
        · obtain ⟨k, after, inside, there⟩ := evidence before
          exact ⟨k, after, by omega, there⟩
        · exact ⟨i, by omega, Nat.lt_succ_self i, by rw [here, beq_iff_eq.mp brace]⟩

/-- Within the block every line is counted. -/
theorem reaches_inside (block : FirstBlock t start opening) {i : Nat} (after : opening < i)
    (inside : i ≤ blockEnd t opening) (inText : i ≤ t.size) :
    ∃ count : Nat, Reaches t start (depthBetween t opening i) true count i
      ∧ (LineIndex.ofText t 1).lineOf i = (LineIndex.ofText t 1).lineOf opening + count := by
  induction i with
  | zero => omega
  | succ i inductionHypothesis =>
    by_cases first : opening = i
    · subst first
      obtain ⟨opened, reached, -⟩ := block.reaches_of_le block.from_ (Nat.le_refl opening)
      rw [block.balanced] at reached
      have further := reached.next block.opens (by decide)
      refine ⟨0, ?_, ?_⟩
      · rw [depthBetween_succ block.opens]
        simpa using further
      · rw [lineOf_succ block.opens]
        rfl
    · obtain ⟨count, reached, counted⟩ := inductionHypothesis (by omega) (by omega) (by omega)
      have here := Array.getElem?_eq_getElem (show i < t.size by omega)
      -- The depth stays positive inside of the block, so a line break there is counted.
      have inside := depth_pos_of_lt_blockEnd block.opens (show opening < i by omega)
        (show i < blockEnd t opening by omega)
      rw [depthBetween_add t (show opening ≤ i by omega) (Nat.le_succ i), depthBetween_succ here,
        lineOf_succ here, counted]
      by_cases newline : t[i] = '\n'
      · rw [newline] at here ⊢
        refine ⟨count + 1, ?_, ?_⟩
        · simpa [braceStep] using reached.nextLine_of_pos here inside
        · rw [if_pos rfl]
          omega
      · refine ⟨count, ?_, ?_⟩
        · simpa using reached.next here newline
        · rw [if_neg newline]
          omega

/-- A block that closes is counted from the line of its brace up to the line on which it ends, unless
that line goes on to open more braces than it closes. -/
theorem lines_of_closed (block : FirstBlock t start opening)
    (closed : depthBetween t opening (blockEnd t opening) = 0)
    (closedLine : depthBetween t (blockEnd t opening) (lineStop t (blockEnd t opening)) ≤ 0) :
    (linesOver 0 false 0 (t.toList.drop start) : Int)
      = (LineIndex.ofText t 1).lineOf (blockEnd t opening - 1 : Nat)
        - (LineIndex.ofText t 1).lineOf opening + 1 := by
  obtain ⟨after, inText⟩ := lt_blockEnd block.opens
  obtain ⟨count, reached, counted⟩ := block.reaches_inside after (Nat.le_refl _) inText
  rw [closed] at reached
  rw [reached.stops (by rwa [Int.zero_add])]
  -- The block ends with its closing brace, which is on the line before its end.
  have sameLine := lineOf_succ (getElem?_blockEnd block.opens closed)
  rw [if_neg (by decide), Nat.sub_add_cancel (by omega)] at sameLine
  omega

/-- A block that is never closed is counted up to the last line. -/
theorem lines_of_unclosed (block : FirstBlock t start opening)
    (unclosed : depthBetween t opening (blockEnd t opening) ≠ 0) :
    (linesOver 0 false 0 (t.toList.drop start) : Int)
      = (textLines t).length - (LineIndex.ofText t 1).lineOf opening + 1 := by
  obtain ⟨after, inText⟩ := lt_blockEnd block.opens
  have atEnd : blockEnd t opening = t.size := by
    by_cases before : blockEnd t opening < t.size
    · exact absurd (depth_blockEnd before).2 unclosed
    · omega
  obtain ⟨count, reached, counted⟩ := block.reaches_inside after (Nat.le_refl _) inText
  have total : ((textLines t).length : Int) = (LineIndex.ofText t 1).lineOf (blockEnd t opening) := by
    rw [LineIndex.lineOf_ofText, textLines, Text.length_splitChars, atEnd, ← Array.length_toList,
      List.take_length]
    omega
  rw [Reaches, atEnd, ← Array.length_toList, List.drop_length] at reached
  rw [reached, total, counted]
  change ((count + 1 : Nat) : Int) = _
  omega

end FirstBlock

/-! ## Declarations with a body -/

/-- An outline lists a function or method with its line and the offset of the brace of its body. -/
def Outline.HasBody (o : Outline) (line : Int) (body : Nat) : Prop :=
  (∃ f ∈ o.functions, f.line = line ∧ f.body = some body)
    ∨ ∃ c ∈ o.classes, ∃ m ∈ c.methods, m.line = line ∧ m.body = some body

/-- The line of a declaration, and a brace at or after the name that stands there. -/
def DeclaredBefore (t : Text) (line : Int) (body : Nat) : Prop :=
  t[body]? = some '{' ∧ ∃ offset ≤ body, (LineIndex.ofText t 1).lineOf offset = line

/-- A match that ends with a single character starts each of its groups before it. -/
theorem groupStart_le_of_isMatch {lead body rest : Pattern} {last : Char → Bool} {index stop : Nat}
    {m : Match}
    (matched : (lead ++ (.group index body ++ (rest ++ .one last))).IsMatch (.upTo t stop) m)
    (own : index ∉ (rest ++ Pattern.one last).groups) :
    m.groupStart index ≤ m.stop - 1 ∧ ∃ c, t[m.stop - 1]? = some c ∧ last c = true := by
  obtain ⟨bodyEnd, _, _, -, -, bodyWay, tail⟩ := matched.group own
  obtain ⟨final, _, restWay, lastWay⟩ := mem_ways_append.mp tail
  obtain ⟨present, stops, -⟩ := mem_ways_one.mp lastWay
  have bodyOrder := (le_of_mem_ways bodyWay).1
  have restOrder := (le_of_mem_ways restWay).1
  obtain ⟨c, here, inClass⟩ := Subject.getElem?_of_has present
  have atLast : m.stop - 1 = final := by omega
  exact ⟨by omega, c, by rw [atLast]; exact here, inClass⟩

theorem declaredBefore_of_isMatch {lead body rest : Pattern} {index stop : Nat} {m : Match}
    (matched : (lead ++ (.group index body ++ (rest ++ char '{'))).IsMatch (.upTo t stop) m)
    (own : index ∉ (rest ++ char '{').groups) :
    DeclaredBefore t ((LineIndex.ofText t 1).lineOf (m.groupStart index)) (m.stop - 1) := by
  obtain ⟨order, c, here, isBrace⟩ := groupStart_le_of_isMatch matched own
  exact ⟨by rw [here, beq_iff_eq.mp isBrace], _, order, rfl⟩

namespace Php

theorem declaredBefore {path : String} {line : Int} {body : Nat}
    (reported : (outline t path).HasBody line body) : DeclaredBefore t line body := by
  rcases reported with ⟨f, member, rfl, hasBody⟩ | ⟨c, inClasses, method, member, rfl, hasBody⟩
  · obtain ⟨m, found, rfl⟩ := List.mem_map.mp (List.mem_filter.mp member).1
    cases hasBody
    have matched := findAll_ofText found
    rw [functionPattern_eq, functionRest] at matched
    exact declaredBefore_of_isMatch matched (by decide)
  · rw [methods_of_mem_classes inClasses] at member
    obtain ⟨m, found, rfl⟩ := List.mem_map.mp member
    have matched := (isMatch_of_mem_findAllFrom (List.mem_filter.mp found).1).2
    rw [methodPattern_eq, methodRest] at matched
    obtain ⟨order, -⟩ := groupStart_le_of_isMatch matched (by decide)
    simp only [methodOf] at hasBody
    split at hasBody
    · next opens =>
      cases hasBody
      exact ⟨beq_iff_eq.mp opens, _, order, rfl⟩
    · cases hasBody

end Php

namespace Script

theorem declaredBefore {path language : String} {line : Int} {body : Nat}
    (reported : (outline t path language 1).HasBody line body) : DeclaredBefore t line body := by
  rcases reported with ⟨f, member, rfl, hasBody⟩ | ⟨c, inClasses, method, member, rfl, hasBody⟩
  · obtain ⟨m, found, rfl⟩ | ⟨m, -, rfl⟩ := header_of_mem_functions member
    · cases hasBody
      have matched := findAll_ofText found
      rw [functionPattern_eq, functionRest] at matched
      exact declaredBefore_of_isMatch matched (by decide)
    · -- The body of an arrow function is not looked for.
      cases hasBody
  · obtain ⟨header, -, rfl⟩ := List.mem_map.mp inClasses
    obtain ⟨m, -, matched, isHeader⟩ := exists_header_of_mem_methodsOf member
    rw [Reference.methodPattern_eq, Reference.headerRest] at matched
    rw [isHeader.body] at hasBody
    cases hasBody
    rw [isHeader.line]
    exact declaredBefore_of_isMatch matched (by decide)

end Script

/-- The lines of a function or method that is reported with a body are those of the first block from
the start of its line on, if this line opens one at a balanced depth: from the line of the brace up to
the line on which the block ends. -/
theorem functionLines_of_firstBlock (t : Text) (path language : String) (line : Int) (body : Nat)
    (reported : (Php.outline t path).HasBody line body
      ∨ (Script.outline t path language 1).HasBody line body) :
    t[body]? = some '{' ∧ ∃ start ≤ body, lineStart t start = start
      ∧ (LineIndex.ofText t 1).lineOf start = line
      ∧ ∀ opening ≤ body, FirstBlock t start opening →
        (depthBetween t opening (blockEnd t opening) = 0 →
          depthBetween t (blockEnd t opening) (lineStop t (blockEnd t opening)) ≤ 0 →
          (functionLines (textLines t) (line - 1) : Int)
            = (LineIndex.ofText t 1).lineOf (blockEnd t opening - 1 : Nat)
              - (LineIndex.ofText t 1).lineOf opening + 1)
        ∧ (depthBetween t opening (blockEnd t opening) ≠ 0 →
          (functionLines (textLines t) (line - 1) : Int)
            = (textLines t).length - (LineIndex.ofText t 1).lineOf opening + 1) := by
  have declared : DeclaredBefore t line body := by
    cases reported with
    | inl inPhp => exact Php.declaredBefore inPhp
    | inr inScript => exact Script.declaredBefore inScript
  obtain ⟨opens, offset, order, rfl⟩ := declared
  obtain ⟨inText, -⟩ := Array.getElem?_eq_some_iff.mp opens
  have isStart := lineStart_lineStart t offset
  have sameLine := lineOf_lineStart offset (show offset ≤ t.size by omega)
  refine ⟨opens, lineStart t offset, Nat.le_trans (lineStart_le t offset) order, isStart, sameLine, ?_⟩
  intro opening _ block
  rw [← sameLine, functionLines_of_lineStart isStart]
  constructor
  · intro closed closedLine
    exact block.lines_of_closed closed closedLine
  · intro unclosed
    exact block.lines_of_unclosed unclosed

def besideClass : Text := Text.ofString "class A \x7b foo() \x7b\n\x7d\n\x7d"

def unpacking : Text := Text.ofString "function f(\x7ba\x7d) \x7b\n  return a\n\x7d\n"

theorem besideClass_hasBody : (Script.outline besideClass "a.js" "javascript" 1).HasBody 1 16 := by
  apply Or.inr
  decide +kernel

theorem unpacking_hasBody : (Script.outline unpacking "a.js" "javascript" 1).HasBody 1 16 := by
  apply Or.inl
  decide +kernel

theorem firstBlock_of_firstLine {opening : Nat} (opens : t[opening]? = some '{')
    (firstLine : lineStart t opening = 0) (balanced : depthBetween t 0 opening = 0) :
    FirstBlock t 0 opening where
  from_ := Nat.zero_le opening
  opens := opens
  noneEarlier := by
    intro k _ before
    omega
  balanced := balanced

theorem firstLine_of_le {limit start : Nat} (oneLine : ∀ k ≤ limit, lineStart t k = 0)
    (upTo : start ≤ limit) (isStart : lineStart t start = start) : start = 0 := by
  rw [← isStart]
  exact oneLine start upTo

/-- The function has the three lines of its body, the method those of the class around it. -/
theorem unpacking_lines :
    functionLines (textLines unpacking) 0 = 3 ∧ functionLines (textLines besideClass) 0 = 3 := by
  constructor
  · obtain ⟨-, start, upTo, isStart, -, counts⟩ :=
      functionLines_of_firstBlock unpacking "a.js" "javascript" 1 16 (.inr unpacking_hasBody)
    obtain rfl := firstLine_of_le (by decide +kernel : ∀ k ≤ 16, lineStart unpacking k = 0) upTo isStart
    have block : FirstBlock unpacking 0 16 :=
      firstBlock_of_firstLine (by decide +kernel) (by decide +kernel) (by decide +kernel)
    have counted := (counts 16 (by decide) block).1 (by decide +kernel) (by decide +kernel)
    rw [Int.sub_self, show (LineIndex.ofText unpacking 1).lineOf (blockEnd unpacking 16 - 1 : Nat) = 3 by
        decide +kernel,
      show (LineIndex.ofText unpacking 1).lineOf (16 : Nat) = 1 by decide +kernel] at counted
    omega
  · obtain ⟨-, start, upTo, isStart, -, counts⟩ :=
      functionLines_of_firstBlock besideClass "a.js" "javascript" 1 16 (.inr besideClass_hasBody)
    obtain rfl := firstLine_of_le (by decide +kernel : ∀ k ≤ 16, lineStart besideClass k = 0) upTo isStart
    have block : FirstBlock besideClass 0 8 :=
      firstBlock_of_firstLine (by decide +kernel) (by decide +kernel) (by decide +kernel)
    have counted := (counts 8 (by decide) block).1 (by decide +kernel) (by decide +kernel)
    rw [Int.sub_self, show (LineIndex.ofText besideClass 1).lineOf (blockEnd besideClass 8 - 1 : Nat) = 3 by
        decide +kernel,
      show (LineIndex.ofText besideClass 1).lineOf (8 : Nat) = 1 by decide +kernel] at counted
    omega

/-- The lines are not always those of the block of the body. -/
theorem lines_beyond_body :
    ¬ ∀ (t : Text) (path language : String) (line : Int) (body : Nat),
      ((Php.outline t path).HasBody line body
        ∨ (Script.outline t path language 1).HasBody line body) →
      (functionLines (textLines t) (line - 1) : Int)
        = (LineIndex.ofText t 1).lineOf (blockEnd t body - 1 : Nat)
          - (LineIndex.ofText t 1).lineOf body + 1 := by
  intro always
  have agrees := always besideClass "a.js" "javascript" 1 16 (.inr besideClass_hasBody)
  revert agrees
  decide +kernel

end Surveyor
