import Mathlib.Data.List.TakeWhile
import Surveyor.Proofs.Text.Remainder

/-! # Words between blanks

A text that is not blank is a core of words with gaps between them, and blanks around it
(`exists_spaced`). Stripping the text leaves the core (`strip_spaced`), and the words of the text are
those of the core (`words_spaced`).
-/

namespace Surveyor.Text

def IsGap (chars : List Char) : Prop := ∀ c ∈ chars, isBlank c = true

/-- There are characters, and none of them is a blank. -/
def IsSolid (chars : List Char) : Prop := chars ≠ [] ∧ ∀ c ∈ chars, isBlank c = false

instance (chars : List Char) : Decidable (IsSolid chars) :=
  decidable_of_iff (chars ≠ [] ∧ chars.all (!isBlank ·) = true) (by simp [IsSolid])

/-- Words one after the other, with at least one blank between neighbours. -/
inductive Spaced : List Char → List String → Prop where
  | last {word : String} (solid : IsSolid word.toList) : Spaced word.toList [word]
  | more {word : String} {gap rest : List Char} {words : List String} (solid : IsSolid word.toList)
      (apart : gap ≠ []) (blank : IsGap gap) (later : Spaced rest words) :
      Spaced (word.toList ++ (gap ++ rest)) (word :: words)

variable {chars core lead trail rest gap : List Char} {words : List String}

theorem IsGap.append {chars' : List Char} (first : IsGap chars) (second : IsGap chars') :
    IsGap (chars ++ chars') := by
  intro c member
  rcases List.mem_append.mp member with inFirst | inSecond
  · exact first c inFirst
  · exact second c inSecond

theorem IsGap.cons {c : Char} (blank : isBlank c = true) (gap : IsGap chars) : IsGap (c :: chars) := by
  intro d member
  rcases List.mem_cons.mp member with rfl | inRest
  · exact blank
  · exact gap d inRest

/-! ## The ends of the core -/

theorem Spaced.exists_cons (spaced : Spaced core words) :
    ∃ c rest, core = c :: rest ∧ isBlank c = false := by
  have first : ∀ {word : String} (tail : List Char), IsSolid word.toList →
      ∃ c rest, word.toList ++ tail = c :: rest ∧ isBlank c = false := by
    intro word tail solid
    obtain ⟨c, others, split⟩ := List.exists_cons_of_ne_nil solid.1
    refine ⟨c, others ++ tail, by rw [split, List.cons_append], solid.2 c ?_⟩
    rw [split]
    exact List.mem_cons_self
  cases spaced with
  | @last word solid => simpa using first [] solid
  | more solid _ _ _ => exact first _ solid

theorem Spaced.exists_append_singleton (spaced : Spaced core words) :
    ∃ init c, core = init ++ [c] ∧ isBlank c = false := by
  induction spaced with
  | @last word solid =>
    refine ⟨word.toList.dropLast, word.toList.getLast solid.1, ?_, solid.2 _ (List.getLast_mem _)⟩
    exact (List.dropLast_concat_getLast solid.1).symm
  | more _ _ _ _ inductionHypothesis =>
    obtain ⟨init, c, split, solid⟩ := inductionHypothesis
    exact ⟨_, c, by rw [split, ← List.append_assoc, ← List.append_assoc], solid⟩

theorem dropWhile_gap (blank : IsGap gap) (rest : List Char) :
    (gap ++ rest).dropWhile isBlank = rest.dropWhile isBlank := by
  induction gap with
  | nil => rfl
  | cons c gap inductionHypothesis =>
    rw [List.cons_append, List.dropWhile_cons_of_pos (blank c (by simp))]
    exact inductionHypothesis fun d member => blank d (by simp [member])

theorem IsGap.reverse (blank : IsGap gap) : IsGap gap.reverse :=
  fun c member => blank c (List.mem_reverse.mp member)

theorem stripChars_gap (blank : IsGap gap) : stripChars isBlank gap = [] := by
  have nothing : gap.dropWhile isBlank = [] := by simpa using dropWhile_gap blank []
  rw [stripChars, nothing]
  rfl

theorem stripChars_between {init : List Char} {c d : Char} (before : IsGap lead) (behind : IsGap trail)
    (starts : core = c :: rest) (solidStart : isBlank c = false) (ends : core = init ++ [d])
    (solidEnd : isBlank d = false) : stripChars isBlank (lead ++ (core ++ trail)) = core := by
  have front : (lead ++ (core ++ trail)).dropWhile isBlank = core ++ trail := by
    rw [dropWhile_gap before, starts, List.cons_append,
      List.dropWhile_cons_of_neg (by rw [solidStart]; exact Bool.false_ne_true)]
  rw [stripChars, front, dropRightWhile, List.reverse_append, dropWhile_gap behind.reverse, ends,
    List.reverse_append, List.reverse_singleton, List.singleton_append,
    List.dropWhile_cons_of_neg (by rw [solidEnd]; exact Bool.false_ne_true)]
  simp

theorem stripChars_spaced (before : IsGap lead) (behind : IsGap trail) (spaced : Spaced core words) :
    stripChars isBlank (lead ++ (core ++ trail)) = core := by
  obtain ⟨c, rest, starts, solidStart⟩ := spaced.exists_cons
  obtain ⟨init, d, ends, solidEnd⟩ := spaced.exists_append_singleton
  exact stripChars_between before behind starts solidStart ends solidEnd

/-! ## Every text has words -/

theorem exists_spaced (chars : List Char) :
    IsGap chars ∨ ∃ lead core trail words,
      chars = lead ++ (core ++ trail) ∧ IsGap lead ∧ IsGap trail ∧ Spaced core words := by
  induction chars with
  | nil => exact .inl (by simp [IsGap])
  | cons c rest inductionHypothesis =>
    cases blank : isBlank c with
    | true =>
      rcases inductionHypothesis with gap | ⟨lead, core, trail, words, rfl, before, behind, spaced⟩
      · exact .inl (gap.cons blank)
      · exact .inr ⟨c :: lead, core, trail, words, rfl, before.cons blank, behind, spaced⟩
    | false =>
      have alone : IsSolid (String.singleton c).toList := by
        simp [IsSolid, blank]
      rcases inductionHypothesis with gap | ⟨lead, core, trail, words, rfl, before, behind, spaced⟩
      · exact .inr ⟨[], _, rest, _, by simp, by simp [IsGap], gap, .last alone⟩
      · refine .inr ⟨[], ?_⟩
        cases lead with
        | cons b lead =>
          exact ⟨_, trail, _, by simp, by simp [IsGap], behind,
            .more alone (List.cons_ne_nil b lead) before spaced⟩
        | nil =>
          -- The character is the first one of the word that follows.
          have longer : ∀ {word : String}, IsSolid word.toList →
              IsSolid (String.ofList (c :: word.toList)).toList := by
            intro word solid
            simpa [IsSolid, blank] using solid.2
          cases spaced with
          | last solid => exact ⟨_, trail, _, by simp, by simp [IsGap], behind, .last (longer solid)⟩
          | more solid apart blank later =>
            exact ⟨_, trail, _, by simp, by simp [IsGap], behind, .more (longer solid) apart blank later⟩

/-! ## What is left of a stripped text -/

theorem exists_strip (chars : List Char) :
    ∃ lead trail, IsGap lead ∧ IsGap trail ∧ chars = lead ++ (stripChars isBlank chars ++ trail) := by
  rcases exists_spaced chars with blank | ⟨lead, core, trail, words, rfl, before, behind, spaced⟩
  · exact ⟨chars, [], blank, by simp [IsGap], by rw [stripChars_gap blank]; simp⟩
  · exact ⟨lead, trail, before, behind, by rw [stripChars_spaced before behind spaced]⟩

theorem stripChars_append_gap (chars : List Char) (behind : IsGap trail) :
    stripChars isBlank (chars ++ trail) = stripChars isBlank chars := by
  rcases exists_spaced chars with blank | ⟨lead, core, gap, words, rfl, before, after, spaced⟩
  · rw [stripChars_gap blank, stripChars_gap (blank.append behind)]
  · rw [stripChars_spaced before after spaced, List.append_assoc, List.append_assoc]
    exact stripChars_spaced before (after.append behind) spaced

theorem stripChars_eq_nil_iff : stripChars isBlank chars = [] ↔ IsGap chars := by
  constructor
  · intro nothing
    obtain ⟨lead, trail, before, behind, split⟩ := exists_strip chars
    rw [nothing, List.nil_append] at split
    rw [split]
    exact before.append behind
  · exact stripChars_gap

/-! ## The words that are read -/

/-- The parts between single blanks, empty ones among them. -/
def blankParts (chars : List Char) : List (List Char) :=
  chars.foldr
    (fun c parts =>
      if isBlank c then [] :: parts
      else
        match parts with
        | [] => [[c]]
        | part :: rest => (c :: part) :: rest)
    [[]]

theorem words_eq (chars : List Char) :
    Text.words (String.ofList chars)
      = ((blankParts chars).filter (!·.isEmpty)).map String.ofList := by
  rw [Text.words, String.toList_ofList]
  rfl

theorem blankParts_blank {c : Char} (blank : isBlank c = true) (rest : List Char) :
    blankParts (c :: rest) = [] :: blankParts rest := by
  rw [blankParts, List.foldr_cons, if_pos blank, ← blankParts]

theorem blankParts_solid {word : List Char} {first : List Char} {others : List (List Char)}
    (solid : ∀ c ∈ word, isBlank c = false) (behind : blankParts rest = first :: others) :
    blankParts (word ++ rest) = (word ++ first) :: others := by
  induction word with
  | nil => exact behind
  | cons c word inductionHypothesis =>
    have later := inductionHypothesis fun d member => solid d (by simp [member])
    rw [blankParts] at later ⊢
    rw [List.cons_append, List.foldr_cons, later, solid c (by simp)]
    rfl

theorem filter_blankParts_gap (blank : IsGap gap) (rest : List Char) :
    (blankParts (gap ++ rest)).filter (!·.isEmpty) = (blankParts rest).filter (!·.isEmpty) := by
  induction gap with
  | nil => rfl
  | cons c gap inductionHypothesis =>
    rw [List.cons_append, blankParts_blank (blank c (by simp))]
    exact inductionHypothesis fun d member => blank d (by simp [member])

theorem filter_blankParts_word {word : List Char} (solid : IsSolid word)
    (stops : rest = [] ∨ ∃ c more, rest = c :: more ∧ isBlank c = true) :
    (blankParts (word ++ rest)).filter (!·.isEmpty)
      = word :: (blankParts rest).filter (!·.isEmpty) := by
  have empty : ∃ others, blankParts rest = [] :: others := by
    rcases stops with rfl | ⟨c, more, rfl, blank⟩
    · exact ⟨[], rfl⟩
    · exact ⟨_, blankParts_blank blank more⟩
  obtain ⟨others, split⟩ := empty
  rw [blankParts_solid solid.2 split, split, List.append_nil]
  simp [solid.1]

theorem exists_cons_of_gap (apart : gap ≠ []) (blank : IsGap gap) (rest : List Char) :
    ∃ c more, gap ++ rest = c :: more ∧ isBlank c = true := by
  obtain ⟨c, others, rfl⟩ := List.exists_cons_of_ne_nil apart
  exact ⟨c, others ++ rest, rfl, blank c (by simp)⟩

theorem words_gap (blank : IsGap chars) : Text.words (String.ofList chars) = [] := by
  have parts := filter_blankParts_gap blank []
  rw [List.append_nil] at parts
  rw [words_eq, parts]
  rfl

/-- The words of a text are those of its core. -/
theorem words_spaced (before : IsGap lead) (behind : IsGap trail) (spaced : Spaced core words) :
    Text.words (String.ofList (lead ++ (core ++ trail))) = words := by
  -- Blanks at either end only add empty parts, which are left out.
  have ofCore : (blankParts (core ++ trail)).filter (!·.isEmpty) = words.map String.toList := by
    have nothing : (blankParts trail).filter (!·.isEmpty) = [] := by
      have parts := filter_blankParts_gap behind []
      rw [List.append_nil] at parts
      exact parts
    induction spaced with
    | last solid =>
      have stops : trail = [] ∨ ∃ c more, trail = c :: more ∧ isBlank c = true := by
        cases trail with
        | nil => exact .inl rfl
        | cons c more => exact .inr ⟨c, more, rfl, behind c (by simp)⟩
      rw [filter_blankParts_word solid stops, nothing]
      rfl
    | @more word gap rest words solid apart blank later inductionHypothesis =>
      rw [List.append_assoc, List.append_assoc,
        filter_blankParts_word solid (.inr (exists_cons_of_gap apart blank _)),
        filter_blankParts_gap blank, inductionHypothesis]
      rfl
  rw [words_eq, filter_blankParts_gap before, ofCore, List.map_map]
  simp [Function.comp_def]

/-! ## The first word -/

/-- The first word goes up to the first blank. -/
theorem eq_of_append_eq {word word' : List Char} {rest rest' : List Char} (solid : IsSolid word)
    (solid' : IsSolid word') (stops : rest.head?.any (!isBlank ·) = false)
    (stops' : rest'.head?.any (!isBlank ·) = false) (same : word ++ rest = word' ++ rest') :
    word = word' ∧ rest = rest' := by
  have whole : ∀ {word : List Char}, IsSolid word → word.takeWhile (!isBlank ·) = word := by
    intro word solid
    exact List.takeWhile_eq_self_iff.mpr fun c member => by simp [solid.2 c member]
  have first := congrArg (List.takeWhile (!isBlank ·)) same
  rw [takeWhile_append_of_stops stops, takeWhile_append_of_stops stops', whole solid, whole solid']
    at first
  rw [first] at same
  exact ⟨first, List.append_cancel_left same⟩

end Surveyor.Text
