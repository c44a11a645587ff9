import Surveyor.Catalog.Obfuscation
import Surveyor.Source.Lines
import Surveyor.Proofs.Quality.Pieces

/-! # Line numbers

The number of the line that holds an offset is the number of the first line plus the number of
newlines before the offset (`lineOf_ofText`): the starts of the lines are sorted, so the bisection
counts those up to the offset. So a later offset is on no earlier line, and none is behind the last line
(`lines_count_newlines`). Lines are cut at the same newlines, so a stretch without a newline lies on the
line with the number of its start (`NumberedIn.onLine`), also where lines are counted from the start of
a larger text.
-/

namespace Surveyor

/-! ## Cutting at newlines -/

namespace Text

theorem splitChars_ne_nil (separator : Char) (chars : List Char) : splitChars separator chars ≠ [] := by
  obtain ⟨first, others, split, -⟩ := Reference.splitChars_eq separator chars
  rw [split]
  simp

theorem splitChars_cons_self (separator : Char) (rest : List Char) :
    splitChars separator (separator :: rest) = [] :: splitChars separator rest := by
  simp [splitChars]

theorem splitChars_cons_of_ne {separator c : Char} (different : c ≠ separator) {rest part : List Char}
    {others : List (List Char)} (split : splitChars separator rest = part :: others) :
    splitChars separator (c :: rest) = (c :: part) :: others := by
  unfold splitChars at split ⊢
  rw [List.foldr_cons, split]
  simp [different]

theorem length_splitChars (separator : Char) (chars : List Char) :
    (splitChars separator chars).length = chars.count separator + 1 := by
  induction chars with
  | nil => rfl
  | cons c rest inductionHypothesis =>
    by_cases same : c = separator
    · subst same
      rw [splitChars_cons_self, List.length_cons, inductionHypothesis, List.count_cons_self]
    · obtain ⟨part, others, split⟩ := List.exists_cons_of_ne_nil (splitChars_ne_nil separator rest)
      rw [splitChars_cons_of_ne same split, List.count_cons_of_ne same, ← inductionHypothesis, split,
        List.length_cons, List.length_cons]

theorem splitChars_append_cons (separator : Char) (before behind : List Char) :
    splitChars separator (before ++ separator :: behind)
      = splitChars separator before ++ splitChars separator behind := by
  induction before with
  | nil =>
    rw [List.nil_append, splitChars_cons_self]
    rfl
  | cons c before inductionHypothesis =>
    obtain ⟨part, others, split⟩ := List.exists_cons_of_ne_nil (splitChars_ne_nil separator before)
    rw [split, List.cons_append] at inductionHypothesis
    by_cases same : c = separator
    · rw [List.cons_append, same, splitChars_cons_self, splitChars_cons_self, inductionHypothesis,
        split, List.cons_append, List.cons_append]
    · rw [List.cons_append, splitChars_cons_of_ne same inductionHypothesis,
        splitChars_cons_of_ne same split, List.cons_append]

/-- Whatever stands before the first separator begins the first part. -/
theorem splitChars_append_of_not_mem {separator : Char} {middle after part : List Char}
    {others : List (List Char)} (unbroken : separator ∉ middle)
    (split : splitChars separator after = part :: others) :
    splitChars separator (middle ++ after) = (middle ++ part) :: others := by
  induction middle with
  | nil => exact split
  | cons c middle inductionHypothesis =>
    rw [List.mem_cons, not_or] at unbroken
    exact splitChars_cons_of_ne (Ne.symm unbroken.1) (inductionHypothesis unbroken.2)

/-- A stretch without a separator lies in the part whose number is the number of separators before
it. -/
theorem getElem?_splitChars {separator : Char} (before : List Char) {middle : List Char}
    (unbroken : separator ∉ middle) (after : List Char) :
    ∃ part, (splitChars separator (before ++ (middle ++ after)))[before.count separator]? = some part
      ∧ middle <:+: part := by
  induction before with
  | nil =>
    obtain ⟨part, others, split⟩ := List.exists_cons_of_ne_nil (splitChars_ne_nil separator after)
    refine ⟨middle ++ part, ?_, (List.prefix_append middle part).isInfix⟩
    rw [List.nil_append, splitChars_append_of_not_mem unbroken split]
    rfl
  | cons c rest inductionHypothesis =>
    obtain ⟨part, there, inPart⟩ := inductionHypothesis
    rw [List.cons_append]
    by_cases same : c = separator
    · subst same
      rw [splitChars_cons_self, List.count_cons_self, List.getElem?_cons_succ]
      exact ⟨part, there, inPart⟩
    · obtain ⟨first, others, split⟩ := List.exists_cons_of_ne_nil
        (splitChars_ne_nil separator (rest ++ (middle ++ after)))
      rw [splitChars_cons_of_ne same split, List.count_cons_of_ne same]
      rw [split] at there
      -- Only the first part grows by the character in front.
      cases number : rest.count separator with
      | zero =>
        rw [number] at there
        obtain rfl : first = part := Option.some.inj there
        exact ⟨c :: first, rfl, inPart.trans (List.suffix_cons c first).isInfix⟩
      | succ later =>
        rw [number] at there
        exact ⟨part, there, inPart⟩

end Text

theorem length_textLines (content : String) :
    (textLines (Text.ofString content)).length = countLines content := by
  rw [textLines, Text.length_splitChars, Text.ofString, List.toList_toArray]
  rfl

/-! ## Starts of lines -/

namespace LineIndex

/-- The offsets after the newlines of a text, which starts at an offset. -/
def newlineEnds : Nat → List Char → List Nat
  | _, [] => []
  | i, c :: rest => if c == '\n' then (i + 1) :: newlineEnds (i + 1) rest else newlineEnds (i + 1) rest

/-- What is collected over characters, from the starts found so far and the offset reached. -/
theorem toList_foldl_starts {step : Array Nat × Nat → Char → Array Nat × Nat}
    (steps : ∀ starts i c, step (starts, i) c
      = if c == '\n' then (starts.push (i + 1), i + 1) else (starts, i + 1))
    (chars : List Char) (starts : Array Nat) (i : Nat) :
    (chars.foldl step (starts, i)).1.toList = starts.toList ++ newlineEnds i chars := by
  induction chars generalizing starts i with
  | nil => simp [newlineEnds]
  | cons c rest inductionHypothesis =>
    rw [List.foldl_cons, newlineEnds, steps]
    by_cases newline : (c == '\n') = true
    · rw [if_pos newline, if_pos newline, inductionHypothesis]
      simp
    · rw [if_neg newline, if_neg newline, inductionHypothesis]

theorem toList_lineStarts (t : Text) : (lineStarts t).toList = 0 :: newlineEnds 0 t.toList := by
  rw [lineStarts, ← Array.foldl_toList]
  exact toList_foldl_starts (fun _ _ _ => rfl) t.toList #[0] 0

theorem lt_of_mem_newlineEnds {i n : Nat} {chars : List Char} (member : n ∈ newlineEnds i chars) :
    i < n := by
  induction chars generalizing i with
  | nil => cases member
  | cons c rest inductionHypothesis =>
    rw [newlineEnds] at member
    split at member
    · rcases List.mem_cons.mp member with rfl | later
      · omega
      · have := inductionHypothesis later
        omega
    · have := inductionHypothesis member
      omega

theorem sorted_newlineEnds (i : Nat) (chars : List Char) :
    (newlineEnds i chars).Pairwise fun a b => a < b := by
  induction chars generalizing i with
  | nil => exact .nil
  | cons c rest inductionHypothesis =>
    rw [newlineEnds]
    split
    · exact .cons (fun _ member => lt_of_mem_newlineEnds member) (inductionHypothesis (i + 1))
    · exact inductionHypothesis (i + 1)

theorem countP_newlineEnds (i position : Nat) (chars : List Char) :
    (newlineEnds i chars).countP (fun n => decide (n ≤ i + position))
      = (chars.take position).count '\n' := by
  induction chars generalizing i position with
  | nil => simp [newlineEnds]
  | cons c rest inductionHypothesis =>
    cases position with
    | zero =>
      rw [List.take_zero, List.count_nil, List.countP_eq_zero]
      intro n member
      have := lt_of_mem_newlineEnds member
      simp only [Nat.add_zero, decide_eq_true_eq]
      omega
    | succ position =>
      have further := inductionHypothesis (i + 1) position
      rw [show i + 1 + position = i + (position + 1) by omega] at further
      rw [List.take_succ_cons, newlineEnds]
      by_cases newline : c = '\n'
      · subst newline
        rw [if_pos (by rfl), List.countP_cons_of_pos (by simp), further, List.count_cons_self]
      · rw [if_neg (by simpa using newline), further, List.count_cons_of_ne newline]

/-! ## Bisection -/

/-- In a sorted list, the numbers up to a bound stand in front. -/
theorem getElem_le_iff {numbers : List Nat} (sorted : numbers.Pairwise fun a b => a < b) {bound i : Nat}
    (inList : i < numbers.length) :
    numbers[i] ≤ bound ↔ i < numbers.countP fun n => decide (n ≤ bound) := by
  induction numbers generalizing i with
  | nil => simp at inList
  | cons first rest inductionHypothesis =>
    rw [List.pairwise_cons] at sorted
    by_cases upTo : first ≤ bound
    · rw [List.countP_cons_of_pos (by simpa using upTo)]
      cases i with
      | zero => simpa using upTo
      | succ i =>
        rw [List.getElem_cons_succ, inductionHypothesis sorted.2 (by simpa using inList)]
        omega
    · -- Beyond the bound stands everything from here on.
      have none_ : (first :: rest).countP (fun n => decide (n ≤ bound)) = 0 := by
        rw [List.countP_eq_zero]
        intro n member
        rcases List.mem_cons.mp member with rfl | later
        · simpa using upTo
        · have := sorted.1 n later
          simp only [decide_eq_true_eq]
          omega
      rw [none_]
      have least : first ≤ (first :: rest)[i] := by
        cases i with
        | zero => simp
        | succ i => exact Nat.le_of_lt (sorted.1 _ (List.getElem_mem _))
      omega

/-- The bisection ends at the number of starts up to the position. -/
theorem countUpTo_eq {starts : Array Nat} (sorted : starts.toList.Pairwise fun a b => a < b)
    {position fuel low high : Nat} (enough : high ≤ low + fuel) (inArray : high ≤ starts.size)
    (from_ : low ≤ starts.toList.countP fun n => decide (n ≤ position))
    (upTo : starts.toList.countP (fun n => decide (n ≤ position)) ≤ high) :
    countUpTo starts position fuel low high
      = starts.toList.countP fun n => decide (n ≤ position) := by
  induction fuel generalizing low high with
  | zero =>
    rw [countUpTo]
    omega
  | succ fuel inductionHypothesis =>
    rw [countUpTo]
    split
    · have inMiddle : (low + high) / 2 < starts.size := by omega
      have decides : ((starts[(low + high) / 2]?.getD 0 : Nat) : Int) ≤ position
          ↔ (low + high) / 2 < starts.toList.countP fun n => decide (n ≤ position) := by
        rw [Array.getElem?_eq_getElem inMiddle, Option.getD_some, Int.ofNat_le,
          ← getElem_le_iff sorted (by simpa using inMiddle), Array.getElem_toList]
      simp only [decides]
      split
      · exact inductionHypothesis (by omega) inArray (by omega) upTo
      · exact inductionHypothesis (by omega) (by omega) from_ (by omega)
    · omega

theorem lineOf_ofText (t : Text) (first : Int) (offset : Nat) :
    (ofText t first).lineOf offset = first + ((t.toList.take offset).count '\n' : Nat) := by
  have starts := toList_lineStarts t
  have sorted : (lineStarts t).toList.Pairwise fun a b => a < b := by
    rw [starts]
    exact .cons (fun _ member => lt_of_mem_newlineEnds member) (sorted_newlineEnds 0 t.toList)
  have counted : (lineStarts t).toList.countP (fun n => decide (n ≤ offset))
      = (t.toList.take offset).count '\n' + 1 := by
    have later := countP_newlineEnds 0 offset t.toList
    rw [Nat.zero_add] at later
    rw [starts, List.countP_cons_of_pos (by simp), later]
  have bisected : countUpTo (lineStarts t) offset (lineStarts t).size 0 (lineStarts t).size
      = (lineStarts t).toList.countP fun n => decide (n ≤ offset) := by
    refine countUpTo_eq sorted (by omega) (Nat.le_refl _) (Nat.zero_le _) ?_
    rw [← Array.length_toList]
    exact List.countP_le_length
  simp only [lineOf, ofText, bisected, counted]
  omega

theorem lineOf_mono (t : Text) (first : Int) {offset later : Nat} (order : offset ≤ later) :
    (ofText t first).lineOf offset ≤ (ofText t first).lineOf later := by
  rw [lineOf_ofText, lineOf_ofText]
  -- Whatever comes before the first offset comes before the later one.
  have before : t.toList.take offset <+: t.toList.take later := List.take_prefix_take_left order
  have counted := before.sublist.count_le '\n'
  omega

/-- No line of a text is before the first one or behind the last one. -/
theorem lineOf_bounds (t : Text) (first : Int) (offset : Nat) :
    first ≤ (ofText t first).lineOf offset
      ∧ (ofText t first).lineOf offset ≤ first + (t.toList.count '\n' : Nat) := by
  have counted := (List.take_sublist offset t.toList).count_le '\n'
  rw [lineOf_ofText]
  constructor
  · omega
  · omega

/-- The line of an offset is the first one plus the newlines before it, wherever the offset is: in the
text, on a newline or behind the end. -/
theorem lines_count_newlines (t : Text) (first : Int) :
    (∀ offset : Nat,
      (ofText t first).lineOf offset = first + ((t.toList.take offset).count '\n' : Nat))
    ∧ (∀ offset later : Nat, offset ≤ later →
      (ofText t first).lineOf offset ≤ (ofText t first).lineOf later)
    ∧ ∀ offset : Nat, (ofText t first).lineOf offset ≤ first + (t.toList.count '\n' : Nat) :=
  ⟨lineOf_ofText t first, fun _ _ order => lineOf_mono t first order,
    fun offset => (lineOf_bounds t first offset).2⟩

example : [0, 1, 2, 3, 9].map (fun offset => (ofText (Text.ofString "a\nb\n") 7).lineOf offset)
    = [7, 7, 8, 8, 9] := by decide

/-- Lines move with the number of the first one. -/
theorem lineOf_moved (t : Text) (first d position : Int) :
    (ofText t (first + d)).lineOf position = (ofText t first).lineOf position + d := by
  simp only [lineOf, ofText]
  omega

/-- Lines of a stretch that are counted from the line at which it starts are lines of the text. -/
theorem lineOf_slice {t : Text} {first : Int} {start stop offset : Nat}
    (inStretch : start + offset ≤ stop) :
    (ofText (Text.ofString (t.slice start stop)) ((ofText t first).lineOf start)).lineOf offset
      = (ofText t first).lineOf (start + offset : Nat) := by
  have stretch : (Text.ofString (t.slice start stop)).toList.take offset
      = (t.toList.drop start).take offset := by
    rw [Text.ofString, List.toList_toArray, toList_slice, Array.toList_extract,
      List.extract_eq_take_drop, List.take_take, Nat.min_eq_left (by omega)]
  rw [lineOf_ofText, lineOf_ofText, lineOf_ofText, stretch, List.take_add, List.count_append]
  omega

/-- A stretch ends on the line where what comes after it starts. -/
theorem lineOf_end_slice {t : Text} {first : Int} {start stop : Nat} (order : start ≤ stop)
    (inText : stop ≤ t.size) :
    (ofText t first).lineOf start + ((t.slice start stop).toList.count '\n' : Nat)
      = (ofText t first).lineOf stop := by
  have inStretch : start + (stop - start) ≤ stop := by omega
  have whole : (ofText (Text.ofString (t.slice start stop)) ((ofText t first).lineOf start)).lineOf
      (stop - start : Nat) = (ofText t first).lineOf (start + (stop - start) : Nat) :=
    lineOf_slice inStretch
  rw [Nat.add_sub_cancel' order, lineOf_ofText, Text.ofString, List.toList_toArray,
    ← length_slice inText, List.take_length] at whole
  exact whole

end LineIndex

/-! ## Lines of a text -/

def IsLine (t : Text) (line : Int) : Prop := 1 ≤ line ∧ line ≤ (textLines t).length

def OnLine (t : Text) (line : Int) (n : String) : Prop :=
  ∃ (before : Nat) (chars : List Char),
    line = before + 1 ∧ (textLines t)[before]? = some chars ∧ n.toList <:+: chars

theorem OnLine.isLine {t : Text} {line : Int} {n : String} (on : OnLine t line n) : IsLine t line := by
  obtain ⟨before, chars, rfl, there, -⟩ := on
  obtain ⟨inList, -⟩ := List.getElem?_eq_some_iff.mp there
  constructor
  · omega
  · omega

theorem OnLine.part {t : Text} {line : Int} {n part : String} (on : OnLine t line n)
    (occurs : part.toList <:+: n.toList) : OnLine t line part := by
  obtain ⟨before, chars, numbered, there, inside⟩ := on
  exact ⟨before, chars, numbered, there, occurs.trans inside⟩

/-- One text stands in another one, and its first line has the number that it has there. -/
def NumberedIn (part t : Text) (first : Int) : Prop :=
  ∃ before after, t.toList = before ++ (part.toList ++ after) ∧ first = 1 + (before.count '\n' : Nat)

theorem NumberedIn.refl (t : Text) : NumberedIn t t 1 :=
  ⟨[], [], by simp, by simp⟩

/-- A stretch of a text whose lines are counted from the line at which it starts. -/
theorem NumberedIn.slice (t : Text) (start stop : Nat) :
    NumberedIn (Text.ofString (t.slice start stop)) t ((LineIndex.ofText t 1).lineOf start) := by
  refine ⟨t.toList.take start, (t.toList.drop start).drop (stop - start), ?_, ?_⟩
  · exact toList_around_slice t start stop
  · exact LineIndex.lineOf_ofText t 1 start

section

variable {part t : Text} {first : Int}

theorem NumberedIn.isLine (numbered : NumberedIn part t first) (offset : Nat) :
    IsLine t ((LineIndex.ofText part first).lineOf offset) := by
  obtain ⟨before, after, whole, rfl⟩ := numbered
  have fewer : (part.toList.take offset).count '\n' ≤ part.toList.count '\n' :=
    (List.take_sublist offset part.toList).count_le '\n'
  rw [LineIndex.lineOf_ofText, IsLine, textLines, Text.length_splitChars, whole, List.count_append,
    List.count_append]
  constructor
  · omega
  · omega

theorem NumberedIn.onLine (numbered : NumberedIn part t first) {offset stop : Nat}
    (unbroken : '\n' ∉ (part.slice offset stop).toList) :
    OnLine t ((LineIndex.ofText part first).lineOf offset) (part.slice offset stop) := by
  obtain ⟨before, after, whole, rfl⟩ := numbered
  have cut : t.toList = (before ++ part.toList.take offset)
      ++ ((part.slice offset stop).toList
        ++ ((part.toList.drop offset).drop (stop - offset) ++ after)) := by
    have around := congrArg (before ++ · ++ after) (toList_around_slice part offset stop)
    simpa only [List.append_assoc, ← whole] using around
  obtain ⟨chars, there, inside⟩ := Text.getElem?_splitChars (before ++ part.toList.take offset)
    unbroken ((part.toList.drop offset).drop (stop - offset) ++ after)
  rw [← cut] at there
  refine ⟨_, chars, ?_, there, inside⟩
  rw [LineIndex.lineOf_ofText, List.count_append]
  omega

end

end Surveyor
