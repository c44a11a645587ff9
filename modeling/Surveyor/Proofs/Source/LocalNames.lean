import Mathlib.Data.List.TakeDrop
import Surveyor.Proofs.Pattern.Preferred
import Surveyor.Proofs.Pattern.Spelling
import Surveyor.Proofs.Text.Words
import Surveyor.Source.Script.Imports

/-! # Local names

An element of an import's braces gives the local name that it binds, or something that is no name.
What stands behind the last `as` of an import, and between colon and equals sign of a destructured
element, is taken as it is. `PlainClause` and `PlainTarget` say on the elements alone when that is a
name.
-/

namespace Surveyor

open Pattern Text

variable {t : Text} {i j : Nat} {chars rest part lead name trail : List Char} {words : List String}

/-! ## What is left of a text -/

theorem stands_of_drop {p : Char → Bool} (left : t.toList.drop i = part ++ rest)
    (all : ∀ c ∈ part, p c = true) : Stands t p i (i + part.length) := by
  intro k from_ inside
  obtain ⟨o, rfl⟩ := Nat.exists_eq_add_of_le from_
  have inPart : o < part.length := by omega
  refine ⟨part[o], ?_, all _ (List.getElem_mem inPart)⟩
  rw [← Array.getElem?_toList, ← List.getElem?_drop, left, List.getElem?_append_left inPart,
    List.getElem?_eq_getElem inPart]

theorem spelled_of_drop {word : String} (left : t.toList.drop i = word.toList ++ rest) :
    Spelled t word i := by
  intro k inWord
  rw [← Array.getElem?_toList, ← List.getElem?_drop, left,
    List.getElem?_append_left (by rwa [String.length_toList])]

theorem drop_of_spelled {word : String} (spelled : Spelled t word i) :
    t.toList.drop i = word.toList ++ t.toList.drop (i + word.length) := by
  apply List.ext_getElem?
  intro k
  rw [List.getElem?_drop, Array.getElem?_toList]
  rcases Nat.lt_or_ge k word.length with inWord | behind
  · rw [List.getElem?_append_left (by rwa [String.length_toList]), spelled k inWord]
  · rw [List.getElem?_append_right (by rwa [String.length_toList]), List.getElem?_drop,
      Array.getElem?_toList, String.length_toList]
    congr 1
    omega

/-! ## The keyword `as` -/

/-- The words behind the last `as` that has words on both sides, read from left to right. -/
def afterAs? : List String → Option (List String)
  | _ :: "as" :: next :: rest => some ((afterAs? (next :: rest)).getD (next :: rest))
  | _ :: rest => afterAs? rest
  | [] => none

theorem mem_ways_asKeyword {after : Captures} :
    (j, after) ∈ Script.asKeyword.ways (.ofText t) i [] ↔
      ∃ a, i + 1 ≤ a ∧ Stands t isBlank i a ∧ Spelled t "as" a ∧ a + "as".length + 1 ≤ j
        ∧ Stands t isBlank (a + "as".length) j ∧ after = [] := by
  simp only [Script.asKeyword, mem_ways_append, blanks1, mem_ways_greedy_ofText, mem_ways_lit_ofText]
  constructor
  · rintro ⟨_, _, ⟨a, _, ⟨order, before, rfl⟩, spelled, rfl, rfl⟩, enough, behind, rfl⟩
    exact ⟨a, order, before, spelled, enough, behind, rfl⟩
  · rintro ⟨a, order, before, spelled, enough, behind, rfl⟩
    exact ⟨_, _, ⟨a, _, ⟨order, before, rfl⟩, spelled, rfl, rfl⟩, enough, behind, rfl⟩

theorem asKeyword_of_matchAt? {m : Match} (matched : Script.asKeyword.matchAt? (.ofText t) i = some m) :
    m.start = i ∧ (∃ a, i + 1 ≤ a ∧ Stands t isBlank i a ∧ Spelled t "as" a
        ∧ a + "as".length + 1 ≤ m.stop ∧ Stands t isBlank (a + "as".length) m.stop)
      ∧ ∀ c, t[m.stop]? = some c → isBlank c = false := by
  obtain ⟨rfl, isMatch⟩ := isMatch_of_matchAt? matched
  obtain ⟨a, order, before, spelled, enough, behind, -⟩ := mem_ways_asKeyword.mp isMatch
  obtain ⟨_, _, -, final⟩ := Prefers.append (prefers_of_matchAt? matched)
  have stopped : (Subject.ofText t).has isBlank m.stop = false := Prefers.greedy final
  refine ⟨rfl, ⟨a, order, before, spelled, enough, behind⟩, fun c here => ?_⟩
  rw [← Bool.not_eq_true] at stopped ⊢
  exact fun blank => stopped (Subject.has_ofText.mpr ⟨c, here, blank⟩)

/-- The keyword with the words before and behind it. -/
theorem eq_as_of_spaced {c : Char} (spaced : Spaced part words)
    (left : part = "as".toList ++ c :: rest) (blank : isBlank c = true) :
    ∃ next more, words = "as" :: next :: more := by
  have solid : IsSolid "as".toList := by decide
  cases spaced with
  | @last word alone =>
    have inWord : c ∈ word.toList := by simp [left]
    rw [alone.2 c inWord] at blank
    cases blank
  | @more word gap rest' words here apart gapBlank later =>
    obtain ⟨d, others, split, isGap⟩ := exists_cons_of_gap apart gapBlank rest'
    obtain ⟨same, -⟩ := eq_of_append_eq here solid (by simp [split, isGap]) (by simp [blank]) left
    obtain rfl : word = "as" := String.toList_inj.mp same
    cases later with
    | last _ => exact ⟨_, _, rfl⟩
    | more _ _ _ _ => exact ⟨_, _, rfl⟩

/-- The keyword matches at no offset where no blank stands. -/
theorem matchAt?_asKeyword_of_solid {c : Char} (here : t[i]? = some c) (solid : isBlank c = false) :
    Script.asKeyword.matchAt? (.ofText t) i = none := by
  cases matched : Script.asKeyword.matchAt? (.ofText t) i with
  | none => rfl
  | some m =>
    obtain ⟨-, ⟨a, order, before, -⟩, -⟩ := asKeyword_of_matchAt? matched
    have none_ := before.le_of_not (Nat.le_refl i) here solid
    omega

theorem matchAt?_asKeyword_of_word {word : List Char} (left : t.toList.drop i = word ++ rest)
    (solid : IsSolid word) : ∀ k, i ≤ k → k < i + word.length →
      Script.asKeyword.matchAt? (.ofText t) k = none := by
  intro k from_ inside
  obtain ⟨c, here, isSolid⟩ :=
    stands_of_drop (p := (!isBlank ·)) left (by simpa using solid.2) k from_ inside
  exact matchAt?_asKeyword_of_solid here (by simpa using isSolid)

/-- In the gap before a word the keyword matches only if it is that word and more words follow. -/
theorem matchAt?_asKeyword_of_gap {gap : List Char} (left : t.toList.drop i = gap ++ rest)
    (blank : IsGap gap) (spaced : Spaced rest words)
    (other : ¬∃ next more, words = "as" :: next :: more) : ∀ k, i ≤ k → k < i + gap.length →
      Script.asKeyword.matchAt? (.ofText t) k = none := by
  intro k from_ inside
  cases matched : Script.asKeyword.matchAt? (.ofText t) k with
  | none => rfl
  | some m =>
    refine absurd ?_ other
    obtain ⟨-, ⟨a, order, before, spelled, enough, behind⟩, -⟩ := asKeyword_of_matchAt? matched
    obtain ⟨c, others, split, solid⟩ := spaced.exists_cons
    have there := drop_of_append left
    have here : t[i + gap.length]? = some c := getElem?_of_drop (there.trans split)
    have first : a ≤ i + gap.length := before.le_of_not (Nat.le_of_lt inside) here solid
    have gapStands : Stands t isBlank i (i + gap.length) := stands_of_drop left blank
    have second : i + gap.length ≤ a :=
      gapStands.le_of_not (by omega) (spelled.head (c := 'a') (by decide)) (by decide)
    obtain rfl : a = i + gap.length := by omega
    obtain ⟨d, next, isGap⟩ := behind _ (Nat.le_refl _) (by omega)
    have whole := drop_of_spelled spelled
    rw [there, drop_eq_cons next] at whole
    exact eq_as_of_spaced spaced whole isGap

/-- Before a gap and the keyword as a word between words, the search passes over the word and takes the
keyword with the gaps around it. -/
theorem laterMatches_asKeyword_cons {word gap gap' rest : List Char} {fuel : Nat}
    (left : t.toList.drop i = word ++ (gap ++ ("as".toList ++ (gap' ++ rest)))) (solid : IsSolid word)
    (apart : gap ≠ []) (blank : IsGap gap) (apart' : gap' ≠ []) (blank' : IsGap gap')
    (spaced : Spaced rest words) (enough : t.size < i + fuel) :
    ∃ m fuel', t.toList.drop m.stop = rest ∧ t.size < m.stop + fuel'
      ∧ Script.asKeyword.laterMatches (.ofText t) fuel i
        = m :: Script.asKeyword.laterMatches (.ofText t) fuel' m.stop := by
  have afterWord := drop_of_append left
  have atKeyword := drop_of_append afterWord
  have behindKeyword := drop_of_append atKeyword
  have atRest := drop_of_append behindKeyword
  have length : "as".toList.length = "as".length := rfl
  rw [length] at behindKeyword atRest
  have spelled : Spelled t "as" (i + word.length + gap.length) := spelled_of_drop atKeyword
  have before : Stands t isBlank (i + word.length) (i + word.length + gap.length) :=
    stands_of_drop afterWord blank
  have behind : Stands t isBlank (i + word.length + gap.length + "as".length)
      (i + word.length + gap.length + "as".length + gap'.length) := stands_of_drop behindKeyword blank'
  have gapLength := List.length_pos_iff.mpr apart
  have gapLength' := List.length_pos_iff.mpr apart'
  have inText : i + word.length + gap.length + "as".length ≤ t.size :=
    le_size_of_append (by decide) atKeyword
  obtain ⟨m, matched⟩ := exists_matchAt? (mem_ways_asKeyword.mpr
    ⟨_, by omega, before, spelled, Nat.add_le_add_left gapLength' _, behind, rfl⟩)
  obtain ⟨starts, ⟨a, order, before', spelled', enough', behind'⟩, stopped⟩ :=
    asKeyword_of_matchAt? matched
  -- Both gaps are passed over as a whole: the keyword starts where the first one ends, and the
  -- second one is a greedy run.
  have first : i + word.length + gap.length ≤ a :=
    before.le_of_not (by omega) (spelled'.head (c := 'a') (by decide)) (by decide)
  have second : a ≤ i + word.length + gap.length :=
    before'.le_of_not (by omega) (spelled.head (c := 'a') (by decide)) (by decide)
  obtain rfl : a = i + word.length + gap.length := Nat.le_antisymm second first
  obtain ⟨c, others, split, isSolid⟩ := spaced.exists_cons
  have third : m.stop ≤ i + word.length + gap.length + "as".length + gap'.length :=
    behind'.le_of_not (by omega) (getElem?_of_drop (atRest.trans split)) isSolid
  have stops : m.stop = i + word.length + gap.length + "as".length + gap'.length := by
    rcases Nat.eq_or_lt_of_le third with same | short
    · exact same
    · obtain ⟨d, here, isGap⟩ := behind m.stop (by omega) short
      rw [stopped d here] at isGap
      cases isGap
  have passed : Script.asKeyword.laterMatches (.ofText t) fuel i
      = Script.asKeyword.laterMatches (.ofText t) (fuel - (i + word.length - i)) (i + word.length) :=
    laterMatches_skip (by omega) (by simp only [Subject.ofText]; omega) (by omega)
      (matchAt?_asKeyword_of_word left solid)
  obtain ⟨fuel', remains⟩ : ∃ fuel', fuel - (i + word.length - i) = fuel' + 1 :=
    ⟨fuel - word.length - 1, by omega⟩
  have resumed : resumeAt m = m.stop := if_pos (by omega)
  refine ⟨m, fuel', by rw [stops]; exact atRest, by omega, ?_⟩
  rw [passed, remains, laterMatches_succ, if_neg (by simp only [Subject.ofText]; omega), matched,
    ← resumed]

/-- The search for the keyword from the start of a word on: without a match there is no `as` between
words, and behind the last match stand the words after the last `as`. -/
theorem laterMatches_asKeyword (words : List String) : ∀ {chars : List Char} {i fuel : Nat},
    t.toList.drop i = chars → Spaced chars words → t.size < i + fuel →
      match afterAs? words with
      | none => Script.asKeyword.laterMatches (.ofText t) fuel i = []
      | some final => ∃ m, (Script.asKeyword.laterMatches (.ofText t) fuel i).getLast? = some m
          ∧ Spaced (t.toList.drop m.stop) final := by
  induction words using afterAs?.induct with
  | case1 word next more inductionHypothesis =>
    intro chars i fuel left spaced enough
    obtain _ | ⟨solid, apart, blank, later⟩ := spaced
    obtain _ | ⟨_, apart', blank', further⟩ := later
    obtain ⟨m, fuel', behind, enough', found⟩ :=
      laterMatches_asKeyword_cons left solid apart blank apart' blank' further enough
    have inRest := inductionHypothesis behind further enough'
    rw [afterAs?]
    cases rest : afterAs? (next :: more) with
    | none =>
      rw [rest] at inRest
      rw [found, inRest]
      exact ⟨m, rfl, by rw [behind]; exact further⟩
    | some final =>
      rw [rest] at inRest
      obtain ⟨last, isLast, final⟩ := inRest
      refine ⟨last, ?_, final⟩
      rw [found, List.getLast?_cons, isLast]
      rfl
  | case2 word more notAs inductionHypothesis =>
    intro chars i fuel left spaced enough
    rw [afterAs?.eq_2 _ _ notAs]
    cases spaced with
    | last solid =>
      -- The word is the end of the text.
      have ends : t.size = i + word.toList.length := by
        have shared := congrArg List.length left
        have positive := List.length_pos_iff.mpr solid.1
        simp only [List.length_drop, Array.length_toList] at shared
        omega
      refine List.eq_nil_iff_forall_not_mem.mpr fun m member => ?_
      obtain ⟨from_, matched⟩ := laterMatches_sound member
      obtain ⟨-, ⟨a, order, before, -⟩, -⟩ := asKeyword_of_matchAt? matched
      obtain ⟨_, here, -⟩ := before m.start (Nat.le_refl _) order
      obtain ⟨inText, -⟩ := Array.getElem?_eq_some_iff.mp here
      rw [matchAt?_asKeyword_of_word (left.trans (List.append_nil _).symm) solid m.start from_
        (by omega)] at matched
      cases matched
    | @more _ gap rest _ solid apart blank later =>
      have afterWord := drop_of_append left
      have behind := drop_of_append afterWord
      obtain ⟨c, others, split, -⟩ := later.exists_cons
      obtain ⟨inText, -⟩ := Array.getElem?_eq_some_iff.mp (getElem?_of_drop (behind.trans split))
      have passed : Script.asKeyword.laterMatches (.ofText t) fuel i
          = Script.asKeyword.laterMatches (.ofText t) (fuel - (i + word.toList.length + gap.length - i))
            (i + word.toList.length + gap.length) := by
        refine laterMatches_skip (by omega) (by simp only [Subject.ofText]; omega) (by omega) ?_
        intro k from_ inside
        rcases Nat.lt_or_ge k (i + word.toList.length) with inWord | inGap
        · exact matchAt?_asKeyword_of_word left solid k from_ inWord
        · refine matchAt?_asKeyword_of_gap afterWord blank later ?_ k inGap inside
          rintro ⟨next, more, rfl⟩
          exact notAs next more rfl
      rw [passed]
      exact inductionHypothesis behind later (by omega)
  | case3 =>
    intro chars i fuel left spaced enough
    cases spaced

/-- The part behind the last keyword has the words that stand behind the last `as`. -/
theorem exists_lastPart (spaced : Spaced t.toList words) :
    ∃ part, (Script.asKeyword.splitBy t).getLast? = some (String.ofList part)
      ∧ Spaced part ((afterAs? words).getD words) := by
  have found := laterMatches_asKeyword words (List.drop_zero (l := t.toList)) spaced
    (show t.size < 0 + (t.size + 1) by omega)
  have searched : Script.asKeyword.findAll (.ofText t)
      = Script.asKeyword.laterMatches (.ofText t) (t.size + 1) 0 := rfl
  have rest : ∀ k, t.slice k t.size = String.ofList (t.toList.drop k) := by
    intro k
    rw [Text.slice, Text.asString, Array.toList_extract, List.extract_eq_take_drop,
      List.take_of_length_le (by simp)]
  rw [getLast?_splitBy, searched, rest]
  cases joined : afterAs? words with
  | none =>
    rw [joined] at found
    rw [found]
    exact ⟨_, rfl, spaced⟩
  | some final =>
    rw [joined] at found
    obtain ⟨m, isLast, behind⟩ := found
    rw [isLast]
    exact ⟨_, rfl, behind⟩

/-! ## The word `type` -/

/-- The words without a leading `type` that has words behind it. -/
def withoutType : List String → List String
  | "type" :: next :: rest => next :: rest
  | words => words

theorem mem_ways_typeMarker {after : Captures} :
    (j, after) ∈ Script.typeMarker.ways (.ofText t) 0 [] ↔
      ∃ a, Stands t isBlank 0 a ∧ Spelled t "type" a ∧ a + "type".length + 1 ≤ j
        ∧ Stands t isBlank (a + "type".length) j ∧ after = [] := by
  simp only [Script.typeMarker, mem_ways_append, textStart, mem_ways_where, blanks, blanks1,
    mem_ways_greedy_ofText, mem_ways_lit_ofText, beq_self_eq_true, true_and, Nat.add_zero]
  constructor
  · rintro ⟨_, _, ⟨a, _, ⟨_, _, ⟨rfl, rfl⟩, -, before, rfl⟩, spelled, rfl, rfl⟩, enough, behind, rfl⟩
    exact ⟨a, before, spelled, enough, behind, rfl⟩
  · rintro ⟨a, before, spelled, enough, behind, rfl⟩
    exact ⟨_, _, ⟨a, _, ⟨_, _, ⟨rfl, rfl⟩, Nat.zero_le a, before, rfl⟩, spelled, rfl, rfl⟩, enough,
      behind, rfl⟩

/-- What is left of an element once the marker is dropped. -/
def unmarked (part : String) : String :=
  match Script.typeMarker.matchAt? (.ofText (Text.ofString part)) 0 with
  | some m => (Text.ofString part).slice m.stop (Text.ofString part).size
  | none => part

theorem toList_unmarked_of_matchAt? {part : String} {m : Match}
    (matched : Script.typeMarker.matchAt? (.ofText (Text.ofString part)) 0 = some m) :
    (unmarked part).toList = part.toList.drop m.stop := by
  rw [unmarked, matched]
  simp only [Text.slice, Text.asString, Text.ofString, Array.toList_extract, String.toList_ofList,
    List.extract_eq_take_drop]
  exact List.take_of_length_le (by simp)

/-- The marker is found in front of words. -/
theorem exists_typeMarker {lead core trail : List Char} {next : String} {more : List String}
    (whole : t.toList.drop 0 = lead ++ (core ++ trail)) (before : IsGap lead)
    (spaced : Spaced core ("type" :: next :: more)) :
    ∃ m, Script.typeMarker.matchAt? (.ofText t) 0 = some m := by
  have leadStands : Stands t isBlank 0 lead.length := by
    simpa using stands_of_drop whole before
  have atCore := drop_of_append whole
  rw [Nat.zero_add] at atCore
  obtain _ | ⟨solid, apart, blank, later⟩ := spaced
  rw [List.append_assoc, List.append_assoc] at atCore
  obtain ⟨c, others, gapStarts, isGap⟩ := exists_cons_of_gap apart blank (_ ++ trail)
  have behindWord := drop_of_append atCore
  rw [gapStarts] at behindWord
  exact exists_matchAt? (mem_ways_typeMarker.mpr ⟨lead.length, leadStands, spelled_of_drop atCore,
    Nat.le_refl _, .one (getElem?_of_drop behindWord) isGap, rfl⟩)

/-- The marker stands where the words start, with a gap behind it. -/
theorem typed_of_matchAt? {lead core trail : List Char} {m : Match}
    (whole : t.toList.drop 0 = lead ++ (core ++ trail)) (before : IsGap lead)
    (spaced : Spaced core words) (matched : Script.typeMarker.matchAt? (.ofText t) 0 = some m) :
    core ++ trail = "type".toList ++ t.toList.drop (lead.length + "type".length)
      ∧ lead.length + "type".length + 1 ≤ m.stop
      ∧ Stands t isBlank (lead.length + "type".length) m.stop := by
  have leadStands : Stands t isBlank 0 lead.length := by
    simpa using stands_of_drop whole before
  have atCore := drop_of_append whole
  rw [Nat.zero_add] at atCore
  obtain ⟨starts, isMatch⟩ := isMatch_of_matchAt? matched
  rw [IsMatch, starts] at isMatch
  obtain ⟨a, before', spelled, enough, behind', -⟩ := mem_ways_typeMarker.mp isMatch
  obtain ⟨c, others, coreStarts, solid⟩ := spaced.exists_cons
  have coreHere : t[lead.length]? = some c := by
    rw [coreStarts] at atCore
    exact getElem?_of_drop atCore
  -- Blanks end where the words start, before the marker and before the words alike.
  obtain rfl : a = lead.length := Nat.le_antisymm
    (before'.le_of_not (Nat.zero_le _) coreHere solid)
    (leadStands.le_of_not (Nat.zero_le _) (spelled.head (c := 't') (by decide)) (by decide))
  have typed := drop_of_spelled spelled
  rw [atCore] at typed
  exact ⟨typed, enough, behind'⟩

/-- The marker in front of the first word is dropped with the gap behind it; a marker that no word
follows leaves blanks. -/
theorem unmarked_cases {part : String} {lead core trail : List Char}
    (split : part.toList = lead ++ (core ++ trail)) (before : IsGap lead) (behind : IsGap trail)
    (spaced : Spaced core words) :
    (words = ["type"] ∧ IsGap (unmarked part).toList)
      ∨ ∃ lead' core' trail', (unmarked part).toList = lead' ++ (core' ++ trail') ∧ IsGap lead'
        ∧ IsGap trail' ∧ Spaced core' (withoutType words) := by
  have whole : (Text.ofString part).toList.drop 0 = lead ++ (core ++ trail) := split
  have solidType : IsSolid "type".toList := by decide
  cases matched : Script.typeMarker.matchAt? (.ofText (Text.ofString part)) 0 with
  | none =>
    -- Without a marker the first word is not `type` with another word behind it.
    have kept : unmarked part = part := by rw [unmarked, matched]
    refine .inr ⟨lead, core, trail, by rw [kept]; exact split, before, behind, ?_⟩
    have notType : ∀ next more, words ≠ "type" :: next :: more := by
      rintro next more rfl
      obtain ⟨m, found⟩ := exists_typeMarker whole before spaced
      rw [found] at matched
      cases matched
    rwa [withoutType.eq_2 _ notType]
  | some m =>
    obtain ⟨typed, enough, behind'⟩ := typed_of_matchAt? whole before spaced matched
    obtain ⟨d, next, isGap⟩ := behind' _ (Nat.le_refl _) enough
    have stops : (List.drop (lead.length + "type".length) (Text.ofString part).toList).head?.any
        (!isBlank ·) = false := by
      rw [drop_eq_cons next]
      simp [isGap]
    have dropped : (unmarked part).toList
        = ((Text.ofString part).toList.drop (lead.length + "type".length)).drop
          (m.stop - (lead.length + "type".length)) := by
      rw [toList_unmarked_of_matchAt? matched, List.drop_drop]
      congr 1
      omega
    cases spaced with
    | last alone =>
      -- The marker is the only word, and what it leaves is the end of the blanks behind it.
      have trailStops : trail.head?.any (!isBlank ·) = false := by
        cases trail with
        | nil => rfl
        | cons b more => simp [behind b (by simp)]
      obtain ⟨word, rest⟩ := eq_of_append_eq alone solidType trailStops stops typed
      refine .inl ⟨by rw [String.toList_inj.mp word], ?_⟩
      rw [dropped, ← rest]
      exact fun b member => behind b (List.mem_of_mem_drop member)
    | @more word gap rest words here apart blank later =>
      rw [List.append_assoc, List.append_assoc] at typed
      obtain ⟨b, gapRest, gapStarts, startsGap⟩ := exists_cons_of_gap apart blank (rest ++ trail)
      obtain ⟨isType, left⟩ := eq_of_append_eq here solidType (by simp [gapStarts, startsGap]) stops typed
      obtain ⟨e, others, restStarts, isSolid⟩ := later.exists_cons
      -- The marker stops in the gap, since the next word starts with a solid character.
      have atRest := drop_of_append left.symm
      rw [restStarts] at atRest
      have short : m.stop ≤ lead.length + "type".length + gap.length :=
        behind'.le_of_not (by omega) (getElem?_of_drop atRest) isSolid
      have remains : withoutType (word :: words) = words := by
        rw [String.toList_inj.mp isType]
        cases later with
        | last _ => rfl
        | more _ _ _ _ => rfl
      rw [remains]
      refine .inr ⟨gap.drop (m.stop - (lead.length + "type".length)), rest, trail, ?_, ?_, behind, later⟩
      · rw [dropped, ← left, List.drop_append_of_le_length (by omega)]
      · exact fun b member => blank b (List.mem_of_mem_drop member)

/-! ## Elements of an import -/

/-- The words of an element that stand where its local name is looked for. -/
def bindingWords (words : List String) : List String :=
  (afterAs? (withoutType words)).getD (withoutType words)

/-- No more than one word is left of the element behind a leading `type` and the last `as`, and that
word is a name. -/
def PlainClause (part : String) : Prop :=
  (bindingWords (Text.words part)).length ≤ 1
    ∧ ∀ word ∈ bindingWords (Text.words part), ∀ c ∈ word.toList, isNameChar c = true

theorem forall_isNameChar_iff (spaced : Spaced chars words) :
    (∀ c ∈ chars, isNameChar c = true) ↔
      words.length ≤ 1 ∧ ∀ word ∈ words, ∀ c ∈ word.toList, isNameChar c = true := by
  cases spaced with
  | last solid => simp
  | @more word gap rest words solid apart blank later =>
    constructor
    · intro all
      obtain ⟨c, others, split, isGap⟩ := exists_cons_of_gap apart blank rest
      have inName := all c (by simp [split])
      rw [not_isNameChar_of_isBlank isGap] at inName
      cases inName
    · rintro ⟨single, -⟩
      cases later <;> simp at single

theorem localName_eq (part : String) :
    Script.localName part
      = Text.strip (((Script.asKeyword.splitBy
          (Text.ofString (Text.strip (unmarked part)))).getLast?).getD "") := rfl

theorem localName_of_gap {part : String} (blank : IsGap (unmarked part).toList) :
    Script.localName part = "" := by
  have nothing : Text.strip (unmarked part) = "" := by
    rw [Text.strip, Text.stripWhere, stripChars_gap blank]
  rw [localName_eq, nothing]
  decide

theorem unmarked_of_gap {part : String} (blank : IsGap part.toList) : IsGap (unmarked part).toList := by
  cases matched : Script.typeMarker.matchAt? (.ofText (Text.ofString part)) 0 with
  | none => rwa [unmarked, matched]
  | some m =>
    rw [toList_unmarked_of_matchAt? matched]
    exact fun c member => blank c (List.mem_of_mem_drop member)

/-- The local name of an element is a name, or empty, exactly if the element is plain. -/
theorem localName_iff (part : String) :
    (∀ c ∈ (Script.localName part).toList, isNameChar c = true) ↔ PlainClause part := by
  rcases exists_spaced part.toList with blank | ⟨lead, core, trail, words, split, before, behind, spaced⟩
  · have noWords : Text.words part = [] := by
      simpa using words_gap blank
    rw [localName_of_gap (unmarked_of_gap blank), PlainClause, noWords]
    simp [bindingWords, withoutType, afterAs?]
  · have ofCore : Text.words part = words := by
      rw [← String.ofList_toList (s := part), split]
      exact words_spaced before behind spaced
    rw [PlainClause, ofCore]
    -- Nothing is left behind the marker, or the words behind it are, and of these the part behind the
    -- last `as`.
    rcases unmarked_cases split before behind spaced with
      ⟨rfl, blank⟩ | ⟨lead', core', trail', rest, before', behind', left⟩
    · have isName : ∀ c ∈ "type".toList, isNameChar c = true := List.all_eq_true.mp (by decide)
      rw [localName_of_gap blank]
      simp [bindingWords, withoutType, afterAs?, isName]
    · have stripped : Text.strip (unmarked part) = String.ofList core' := by
        rw [Text.strip, Text.stripWhere, rest, stripChars_spaced before' behind' left]
      have chars : (Text.ofString (String.ofList core')).toList = core' := by simp [Text.ofString]
      obtain ⟨final, isLast, final_⟩ := exists_lastPart (chars.symm ▸ left)
      have named : (Script.localName part).toList = final := by
        rw [localName_eq, stripped, isLast]
        have nothing : IsGap [] := by simp [IsGap]
        have whole := stripChars_spaced nothing nothing final_
        simp only [Option.getD_some, Text.strip, Text.stripWhere, String.toList_ofList]
        simpa using whole
      rw [named]
      exact forall_isNameChar_iff final_

/-! ## Elements of a destructuring pattern -/

/-- A name, perhaps none, between blanks; before them perhaps a key and a colon, and behind them
perhaps an equals sign and a default. -/
structure Target (key lead name trail default : List Char) : Prop where
  keyed : key = [] ∨ ∃ k, key = k ++ [':'] ∧ ':' ∉ k ∧ '=' ∉ k
  before : IsGap lead
  names : ∀ c ∈ name, isNameChar c = true
  behind : IsGap trail
  defaults : default = [] ∨ ∃ more, default = '=' :: more

/-- The element binds no more than a name. -/
def PlainTarget (part : String) : Prop :=
  ∃ key lead name trail default, Target key lead name trail default
    ∧ part.toList = key ++ (lead ++ (name ++ (trail ++ default)))

/-- The part behind the first colon, or all if there is none. -/
def afterColon (chars : List Char) : List Char :=
  match chars.dropWhile (· != ':') with
  | _ :: behind => behind
  | [] => chars

theorem ne_of_isGap (blank : IsGap chars) {d : Char} (solid : isBlank d = false) :
    ∀ c ∈ chars, (c != d) = true := by
  intro c member
  rw [bne_iff_ne]
  rintro rfl
  rw [blank c member] at solid
  cases solid

theorem ne_of_names (names : ∀ c ∈ name, isNameChar c = true) {d : Char}
    (other : isNameChar d = false) : ∀ c ∈ name, (c != d) = true := by
  intro c member
  rw [bne_iff_ne]
  rintro rfl
  rw [names c member] at other
  cases other

theorem stripChars_names (before : IsGap lead) (names : ∀ c ∈ name, isNameChar c = true)
    (behind : IsGap trail) : stripChars isBlank (lead ++ (name ++ trail)) = name := by
  by_cases empty : name = []
  · rw [empty, List.nil_append]
    exact stripChars_gap (before.append behind)
  · have solid : IsSolid (String.ofList name).toList := by
      rw [String.toList_ofList]
      refine ⟨empty, fun c member => ?_⟩
      rw [← Bool.not_eq_true]
      intro blank
      have inName := names c member
      rw [not_isNameChar_of_isBlank blank] at inName
      cases inName
    have stripped := stripChars_spaced before behind (.last solid)
    rwa [String.toList_ofList] at stripped

theorem afterColon_of_none (none_ : ∀ c ∈ chars, (c != ':') = true) : afterColon chars = chars := by
  rw [afterColon, List.dropWhile_eq_nil_iff.mpr none_]

theorem afterColon_append {k : List Char} (none_ : ∀ c ∈ k, (c != ':') = true) (rest : List Char) :
    afterColon (k ++ ':' :: rest) = rest := by
  rw [afterColon, List.dropWhile_append_of_pos none_, List.dropWhile_cons_of_neg (by decide)]

theorem splitOnce_fst (separator : Char) (s : String) :
    (Text.splitOnce separator s).1 = String.ofList (s.toList.takeWhile (· != separator)) := by
  rw [Text.splitOnce, List.span_eq_takeWhile_dropWhile]
  split <;> simp_all

theorem splitOnce_snd (separator : Char) (s : String) :
    (Text.splitOnce separator s).2
      = (s.toList.dropWhile (· != separator)).tail?.map String.ofList := by
  rw [Text.splitOnce, List.span_eq_takeWhile_dropWhile]
  cases s.toList.dropWhile (· != separator) <;> rfl

/-- Either there is no colon, or there is a first one. -/
theorem exists_firstColon (chars : List Char) :
    (∀ c ∈ chars, (c != ':') = true)
      ∨ ∃ k rest, chars = k ++ ':' :: rest ∧ ∀ c ∈ k, (c != ':') = true := by
  have other : ∀ {k : List Char}, ':' ∉ k → ∀ c ∈ k, (c != ':') = true := by
    intro k absent c member
    rw [bne_iff_ne]
    rintro rfl
    exact absent member
  by_cases colon : ':' ∈ chars
  · obtain ⟨k, rest, split, absent⟩ := List.eq_append_cons_of_mem colon
    exact .inr ⟨k, rest, split, other absent⟩
  · exact .inl (other colon)

theorem destructuredName_eq (part : String) :
    Script.destructuredName part
      = ((Text.splitOnce ':' (Text.strip (Text.splitOnce '=' part).1)).2.map Text.strip).getD
          (Text.strip (Text.splitOnce '=' part).1) := by
  -- The definition's own equation would run the text functions to see whether they agree.
  delta Script.destructuredName
  generalize Text.strip (Text.splitOnce '=' part).1 = target
  dsimp only
  cases (Text.splitOnce ':' target).2 <;> rfl

theorem toList_destructuredName (part : String) :
    (Script.destructuredName part).toList
      = stripChars isBlank (afterColon (part.toList.takeWhile (· != '='))) := by
  have target : Text.strip (Text.splitOnce '=' part).1
      = String.ofList (stripChars isBlank (part.toList.takeWhile (· != '='))) := by
    rw [splitOnce_fst, Text.strip, Text.stripWhere, String.toList_ofList]
  rw [destructuredName_eq, target, splitOnce_snd, String.toList_ofList]
  obtain ⟨lead, trail, before, behind, split⟩ := exists_strip (part.toList.takeWhile (· != '='))
  have noColon : ∀ {gap : List Char}, IsGap gap → ∀ c ∈ gap, (c != ':') = true :=
    fun blank => ne_of_isGap blank (by decide)
  rcases exists_firstColon (stripChars isBlank (part.toList.takeWhile (· != '='))) with
    none_ | ⟨k, rest, colon, none_⟩
  · have whole : ∀ c ∈ part.toList.takeWhile (· != '='), (c != ':') = true := by
      rw [split]
      intro c member
      rcases List.mem_append.mp member with inLead | member
      · exact noColon before c inLead
      · rcases List.mem_append.mp member with inCore | inTrail
        · exact none_ c inCore
        · exact noColon behind c inTrail
    rw [afterColon_of_none whole, List.dropWhile_eq_nil_iff.mpr none_]
    simp
  · -- The colon of the stripped text is the first one of the text, and what follows it is stripped again.
    have ofText : afterColon (part.toList.takeWhile (· != '=')) = rest ++ trail := by
      rw [split, colon, show lead ++ (k ++ ':' :: rest ++ trail) = (lead ++ k) ++ ':' :: (rest ++ trail) by
        simp]
      refine afterColon_append ?_ _
      intro c member
      rcases List.mem_append.mp member with inLead | inKey
      · exact noColon before c inLead
      · exact none_ c inKey
    rw [ofText, stripChars_append_gap rest behind, colon, List.dropWhile_append_of_pos none_,
      List.dropWhile_cons_of_neg (by decide)]
    simp [Text.strip, Text.stripWhere]

/-- An element is what stands before its equals sign, and the default. -/
theorem exists_default (chars : List Char) :
    ∃ default, chars = chars.takeWhile (· != '=') ++ default
      ∧ (default = [] ∨ ∃ more, default = '=' :: more) := by
  refine ⟨chars.dropWhile (· != '='), (List.takeWhile_append_dropWhile).symm, ?_⟩
  have first := List.head?_dropWhile_not (· != '=') chars
  cases left : chars.dropWhile (· != '=') with
  | nil => exact .inl rfl
  | cons c more =>
    rw [left] at first
    have same : c = '=' := by simpa using first
    exact .inr ⟨more, by rw [same]⟩

theorem Target.takeWhile {key default : List Char} (target : Target key lead name trail default) :
    (key ++ (lead ++ (name ++ (trail ++ default)))).takeWhile (· != '=')
      = key ++ (lead ++ (name ++ trail)) := by
  have stops : default.head?.any (· != '=') = false := by
    rcases target.defaults with rfl | ⟨more, rfl⟩ <;> simp
  have before : ∀ c ∈ key ++ (lead ++ (name ++ trail)), (c != '=') = true := by
    simp only [List.forall_mem_append]
    refine ⟨?_, ne_of_isGap target.before (by decide), ne_of_names target.names (by decide),
      ne_of_isGap target.behind (by decide)⟩
    rcases target.keyed with rfl | ⟨k, rfl, -, absent⟩
    · simp
    · intro c member
      rw [bne_iff_ne]
      rintro rfl
      simp [absent] at member
  have split : key ++ (lead ++ (name ++ (trail ++ default)))
      = (key ++ (lead ++ (name ++ trail))) ++ default := by simp
  rw [split, takeWhile_append_of_stops stops]
  exact List.takeWhile_eq_self_iff.mpr before

theorem Target.afterColon {key default : List Char} (target : Target key lead name trail default) :
    afterColon (key ++ (lead ++ (name ++ trail))) = lead ++ (name ++ trail) := by
  rcases target.keyed with rfl | ⟨k, rfl, absent, -⟩
  · apply afterColon_of_none
    simp only [List.nil_append, List.forall_mem_append]
    exact ⟨ne_of_isGap target.before (by decide), ne_of_names target.names (by decide),
      ne_of_isGap target.behind (by decide)⟩
  · rw [List.append_assoc, List.singleton_append]
    refine afterColon_append (fun c member => ?_) _
    rw [bne_iff_ne]
    rintro rfl
    exact absent member

/-- The name of a destructured element is a name, or empty, exactly if the element is plain. -/
theorem destructuredName_iff (part : String) :
    (∀ c ∈ (Script.destructuredName part).toList, isNameChar c = true) ↔ PlainTarget part := by
  rw [toList_destructuredName]
  constructor
  · intro names
    obtain ⟨default, parts, defaults⟩ := exists_default part.toList
    obtain ⟨lead, trail, before, behind, split⟩ :=
      exists_strip (afterColon (part.toList.takeWhile (· != '=')))
    rcases exists_firstColon (part.toList.takeWhile (· != '=')) with none_ | ⟨k, rest, colon, none_⟩
    · -- Without a colon the element has no key.
      refine ⟨[], lead, _, trail, default, ⟨.inl rfl, before, names, behind, defaults⟩, ?_⟩
      calc part.toList
        _ = afterColon (part.toList.takeWhile (· != '=')) ++ default := by
          rw [afterColon_of_none none_]
          exact parts
        _ = _ := by
          conv => lhs; rw [split]
          simp
    · have behindColon : afterColon (part.toList.takeWhile (· != '=')) = rest := by
        rw [colon]
        exact afterColon_append none_ rest
      have noEquals : '=' ∉ k := by
        intro member
        have inFront : '=' ∈ part.toList.takeWhile (· != '=') := by simp [colon, member]
        simpa using List.mem_takeWhile_imp inFront
      refine ⟨k ++ [':'], lead, _, trail, default, ⟨.inr ⟨k, rfl, ?_, noEquals⟩, before, names, behind,
        defaults⟩, ?_⟩
      · intro member
        simpa using none_ ':' member
      · calc part.toList
          _ = k ++ [':'] ++ (afterColon (part.toList.takeWhile (· != '=')) ++ default) := by
            rw [behindColon]
            conv => lhs; rw [parts, colon]
            simp
          _ = _ := by
            conv => lhs; rw [split]
            simp
  · rintro ⟨key, lead, name, trail, default, target, split⟩
    rw [split, target.takeWhile, target.afterColon,
      stripChars_names target.before target.names target.behind]
    exact target.names

end Surveyor
