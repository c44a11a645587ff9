import Surveyor.Proofs.Pattern.Edges
import Surveyor.Proofs.Text.Remainder
import Surveyor.Proofs.Text.Sorted
import Surveyor.Source.Braces

/-! # Counting braces

The depth gained by a stretch is the sum of the depths of its parts (`depthBetween_add`). Within the
block that a brace opens it stays positive (`depth_pos_of_lt_blockEnd`), and past the end of the block
it is zero again (`depth_blockEnd`). So no offset is one brace deep in two blocks
(`OneBraceDeep.unique`): from the outer of two opening braces on, what is one brace below the inner one
lies deeper. The last header at or before a position is the greatest of those that a class scope was
made of.
-/

namespace Surveyor

/-! ## Depth -/

theorem foldl_braceStep (chars : List Char) (depth : Int) :
    chars.foldl (fun depth c => depth + braceStep c) depth
      = depth + chars.foldl (fun depth c => depth + braceStep c) 0 := by
  induction chars generalizing depth with
  | nil => simp
  | cons c rest inductionHypothesis =>
    rw [List.foldl_cons, List.foldl_cons, inductionHypothesis, inductionHypothesis (0 + braceStep c)]
    omega

theorem braceDepth_append (t u : Text) : braceDepth (t ++ u) = braceDepth t + braceDepth u := by
  unfold braceDepth
  rw [← Array.foldl_toList, ← Array.foldl_toList, ← Array.foldl_toList, Array.toList_append,
    List.foldl_append, foldl_braceStep]

theorem between_eq_extract (t : Text) (i j : Nat) : t.between i j = t.extract i j := by
  have start : Text.clampIndex t.size (i : Int) = min i t.size := by
    unfold Text.clampIndex
    split <;> omega
  have stop : Text.clampIndex t.size (j : Int) = min j t.size := by
    unfold Text.clampIndex
    split <;> omega
  rw [Text.between, start, stop]
  apply Array.ext_getElem?
  intro k
  simp only [Array.getElem?_extract]
  grind

theorem depthBetween_eq_braceDepth (t : Text) (i j : Nat) :
    depthBetween t i j = braceDepth (t.extract i j) := by
  rw [depthBetween, between_eq_extract]

theorem depthBetween_add (t : Text) {i j k : Nat} (first : i ≤ j) (second : j ≤ k) :
    depthBetween t i k = depthBetween t i j + depthBetween t j k := by
  simp only [depthBetween_eq_braceDepth]
  rw [← braceDepth_append]
  congr 1
  rw [Array.extract_append_extract, Nat.min_eq_left first, Nat.max_eq_right second]

@[simp]
theorem depthBetween_self (t : Text) (i : Nat) : depthBetween t i i = 0 := by
  rw [depthBetween_eq_braceDepth, Array.extract_empty_of_stop_le_start (Nat.le_refl i)]
  rfl

theorem depthBetween_succ {t : Text} {i : Nat} {c : Char} (here : t[i]? = some c) :
    depthBetween t i (i + 1 : Nat) = braceStep c := by
  obtain ⟨inText, rfl⟩ := Array.getElem?_eq_some_iff.mp here
  have single : t.extract i (i + 1) = #[t[i]] := by
    apply Array.ext_getElem?
    intro k
    simp only [Array.getElem?_extract]
    cases k <;> grind
  rw [depthBetween_eq_braceDepth, single]
  simp [braceDepth]

/-- A stretch without braces keeps the depth. -/
theorem depthBetween_eq_zero {t : Text} {i j : Nat}
    (flat : ∀ k, i ≤ k → k < j → ∃ c, t[k]? = some c ∧ braceStep c = 0) :
    depthBetween t i j = 0 := by
  rcases Nat.lt_or_ge i j with nonempty | empty
  · obtain ⟨c, here, step⟩ := flat i (Nat.le_refl i) nonempty
    rw [depthBetween_add t (Nat.le_succ i) nonempty, depthBetween_succ here, step,
      depthBetween_eq_zero fun k from_ inside => flat k (by omega) inside]
    rfl
  · rw [depthBetween_eq_braceDepth, Array.extract_empty_of_stop_le_start empty]
    rfl
termination_by j - i

theorem braceStep_cases (c : Char) :
    (c = '{' ∧ braceStep c = 1) ∨ (c = '}' ∧ braceStep c = -1) ∨ braceStep c = 0 := by
  unfold braceStep
  grind

/-- A stretch without opening braces gains no depth. -/
theorem depthBetween_nonpos {t : Text} {i j : Nat}
    (noneOpened : ∀ k, i ≤ k → k < j → ∃ c, t[k]? = some c ∧ c ≠ '{') :
    depthBetween t i j ≤ 0 := by
  rcases Nat.lt_or_ge i j with nonempty | empty
  · obtain ⟨c, here, notOpening⟩ := noneOpened i (Nat.le_refl i) nonempty
    have rest : depthBetween t (i + 1 : Nat) j ≤ 0 :=
      depthBetween_nonpos fun k from_ inside => noneOpened k (by omega) inside
    rw [depthBetween_add t (Nat.le_add_right i 1) nonempty, depthBetween_succ here]
    rcases braceStep_cases c with ⟨opening, -⟩ | ⟨-, step⟩ | step
    · exact absurd opening notOpening
    · omega
    · omega
  · rw [depthBetween_eq_braceDepth, Array.extract_empty_of_stop_le_start empty]
    exact Int.le_refl 0
termination_by j - i

/-! ## Blocks -/

/-- While the closing brace has not been passed the depth stays positive. -/
theorem depth_pos_of_lt_closingFrom {t : Text} {fuel i k : Nat} {depth : Int} (open_ : 0 < depth)
    (enough : t.size ≤ i + fuel) (from_ : i ≤ k) (inside : k < closingFrom t fuel i depth) :
    0 < depth + depthBetween t i k := by
  induction fuel generalizing i depth with
  | zero =>
    simp only [closingFrom] at inside
    omega
  | succ fuel inductionHypothesis =>
    rcases Nat.eq_or_lt_of_le from_ with rfl | later
    · simpa using open_
    · unfold closingFrom at inside
      split at inside
      · next beyond =>
        have := Array.getElem?_eq_none_iff.mp beyond
        omega
      · next c here =>
        rw [depthBetween_add t (Nat.le_succ i) later, depthBetween_succ here, ← Int.add_assoc]
        simp only [Bool.and_eq_true, beq_iff_eq] at inside
        split at inside
        · omega
        · next stays =>
          refine inductionHypothesis ?_ (by omega) later inside
          rcases braceStep_cases c with ⟨-, step⟩ | ⟨rfl, step⟩ | step
          · omega
          · -- A closing brace that the search passes does not close the block.
            have reopened : depth + braceStep '}' ≠ 0 := fun closed => stays ⟨rfl, closed⟩
            omega
          · omega

/-- Past the opening brace the search goes on at depth one. -/
theorem exists_closingFrom {t : Text} {opening : Nat} (opens : t[opening]? = some '{') :
    ∃ fuel, t.size = opening + 1 + fuel ∧ blockEnd t opening = closingFrom t fuel (opening + 1) 1 := by
  obtain ⟨inText, -⟩ := Array.getElem?_eq_some_iff.mp opens
  refine ⟨t.size - opening - 1, by omega, ?_⟩
  rw [blockEnd, show t.size - opening = t.size - opening - 1 + 1 by omega, closingFrom, opens]
  rfl

theorem depth_pos_of_lt_blockEnd {t : Text} {opening k : Nat} (opens : t[opening]? = some '{')
    (after : opening < k) (inside : k < blockEnd t opening) : 0 < depthBetween t opening k := by
  obtain ⟨fuel, enough, stepped⟩ := exists_closingFrom opens
  rw [depthBetween_add t (Nat.le_succ opening) after, depthBetween_succ opens]
  rw [stepped] at inside
  exact depth_pos_of_lt_closingFrom (by decide) (by omega) after inside

theorem closingFrom_bounds {t : Text} {fuel i : Nat} {depth : Int} (inText : i ≤ t.size) :
    i ≤ closingFrom t fuel i depth ∧ closingFrom t fuel i depth ≤ t.size := by
  induction fuel generalizing i depth with
  | zero => exact ⟨inText, Nat.le_refl _⟩
  | succ fuel inductionHypothesis =>
    unfold closingFrom
    split
    · exact ⟨inText, Nat.le_refl _⟩
    · next c here =>
      have later : i + 1 ≤ t.size := (Array.getElem?_eq_some_iff.mp here).1
      dsimp only
      split
      · exact ⟨Nat.le_succ i, later⟩
      · have further := @inductionHypothesis (i + 1) (depth + braceStep c) later
        omega

/-- A block has at least its opening brace, and it ends within the text. -/
theorem lt_blockEnd {t : Text} {opening : Nat} (opens : t[opening]? = some '{') :
    opening < blockEnd t opening ∧ blockEnd t opening ≤ t.size := by
  obtain ⟨fuel, enough, stepped⟩ := exists_closingFrom opens
  rw [stepped]
  exact closingFrom_bounds (by omega)

/-- Past the brace that the search stops at, the depth is back at zero. -/
theorem depth_closingFrom {t : Text} {fuel i : Nat} {depth : Int}
    (closed : closingFrom t fuel i depth < t.size) :
    i ≤ closingFrom t fuel i depth ∧ depth + depthBetween t i (closingFrom t fuel i depth) = 0 := by
  induction fuel generalizing i depth with
  | zero => simp [closingFrom] at closed
  | succ fuel inductionHypothesis =>
    unfold closingFrom at closed ⊢
    cases here : t[i]? with
    | none => simp [here] at closed
    | some c =>
      simp only [here, Bool.and_eq_true, beq_iff_eq] at closed ⊢
      split
      · next closes =>
        rw [depthBetween_succ here]
        exact ⟨Nat.le_succ i, closes.2⟩
      · next stays =>
        rw [if_neg stays] at closed
        obtain ⟨from_, balanced⟩ := inductionHypothesis closed
        refine ⟨Nat.le_of_succ_le from_, ?_⟩
        rw [depthBetween_add t (Nat.le_add_right i 1) from_, depthBetween_succ here]
        omega

/-- A block that ends before the text does is balanced. -/
theorem depth_blockEnd {t : Text} {opening : Nat} (closed : blockEnd t opening < t.size) :
    opening ≤ blockEnd t opening ∧ depthBetween t opening (blockEnd t opening) = 0 := by
  obtain ⟨from_, balanced⟩ := depth_closingFrom closed
  exact ⟨from_, by rwa [Int.zero_add] at balanced⟩

/-- A block that is balanced ends with its closing brace. -/
theorem getElem?_blockEnd {t : Text} {opening : Nat} (opens : t[opening]? = some '{')
    (closed : depthBetween t opening (blockEnd t opening) = 0) :
    t[blockEnd t opening - 1]? = some '}' := by
  obtain ⟨after, inText⟩ := lt_blockEnd opens
  obtain ⟨last, isLast⟩ : ∃ last, blockEnd t opening = last + 1 := ⟨blockEnd t opening - 1, by omega⟩
  rw [isLast] at closed ⊢
  by_cases atOpening : opening = last
  · rw [← atOpening, depthBetween_succ opens] at closed
    cases closed
  · have here := Array.getElem?_eq_getElem (show last < t.size by omega)
    have open_ := depth_pos_of_lt_blockEnd opens (show opening < last by omega) (by omega)
    rw [depthBetween_add t (show opening ≤ last by omega) (Nat.le_succ last),
      depthBetween_succ here] at closed
    rw [Nat.add_sub_cancel, here]
    rcases braceStep_cases t[last] with ⟨-, step⟩ | ⟨closing, -⟩ | step
    · omega
    · rw [closing]
    · omega

/-! ## One brace deep -/

section

open Pattern

variable {t : Text}

/-- A pattern that passes over no brace keeps the depth. -/
theorem depthBetween_of_flat {s : Subject} {p : Pattern} {i j : Nat} {caps after : Captures}
    (noOpening : p.passes '{' = false) (noClosing : p.passes '}' = false)
    (member : (j, after) ∈ p.ways s i caps) : depthBetween s.text i j = 0 := by
  apply depthBetween_eq_zero
  intro k from_ inside
  obtain ⟨c, here, notOpening⟩ := ne_of_not_passes noOpening member k from_ inside
  obtain ⟨d, same, notClosing⟩ := ne_of_not_passes noClosing member k from_ inside
  rw [here] at same
  cases same
  refine ⟨c, here, ?_⟩
  rcases braceStep_cases c with ⟨opening, -⟩ | ⟨closing, -⟩ | step
  · exact absurd opening notOpening
  · exact absurd closing notClosing
  · exact step

/-- The offset lies in the block that opens at another one, below its opening brace only. -/
def OneBraceDeep (t : Text) (opening offset : Nat) : Prop :=
  opening < offset ∧ offset < blockEnd t opening ∧ depthBetween t opening offset = 1

instance (t : Text) (opening offset : Nat) : Decidable (OneBraceDeep t opening offset) :=
  inferInstanceAs (Decidable (_ ∧ _ ∧ _))

/-- A brace inside of a block opens no level that the block does not have already. -/
theorem OneBraceDeep.not_nested {outer inner offset : Nat} (opens : t[outer]? = some '{')
    (nested : outer < inner) (inOuter : OneBraceDeep t outer offset) :
    ¬ OneBraceDeep t inner offset := by
  intro inInner
  have stillOpen : 0 < depthBetween t outer inner :=
    depth_pos_of_lt_blockEnd opens nested (Nat.lt_trans inInner.1 inOuter.2.1)
  have parts := depthBetween_add t (Nat.le_of_lt nested) (Nat.le_of_lt inInner.1)
  have outerDepth := inOuter.2.2
  have innerDepth := inInner.2.2
  omega

theorem OneBraceDeep.unique {a b offset : Nat} (opensFirst : t[a]? = some '{')
    (opensSecond : t[b]? = some '{') (inFirst : OneBraceDeep t a offset)
    (inSecond : OneBraceDeep t b offset) : a = b := by
  rcases Nat.lt_trichotomy a b with inner | same | outer
  · exact absurd inSecond (inFirst.not_nested opensFirst inner)
  · exact same
  · exact absurd inFirst (inSecond.not_nested opensSecond outer)

/-- What a header names lies one brace deep in a block, if the header starts there and no brace comes
before the end of the name. -/
theorem oneBraceDeep_of_isMatch {lead body rest : Pattern} {index opening : Nat} {m : Match}
    (matched : (lead ++ (.group index body ++ rest)).IsMatch (.upTo t (blockEnd t opening)) m)
    (own : index ∉ rest.groups) (goesOn : rest.consumes = true)
    (flatLead : lead.passes '{' = false ∧ lead.passes '}' = false)
    (flatBody : body.passes '{' = false ∧ body.passes '}' = false)
    (from_ : opening ≤ m.start)
    (directly : depthBetween t opening m.start = 1) {offset : Nat}
    (after : m.groupStart index ≤ offset)
    (upTo : offset ≤ m.groupStart index + (m.groupText t index).length) :
    OneBraceDeep t opening offset := by
  obtain ⟨stop, _, _, recorded, leadWay, bodyWay, restWay⟩ := matched.group own
  have leadOrder := (le_of_mem_ways leadWay).1
  have inName : offset ≤ stop := by
    have written : m.groupText t index = t.slice (m.groupStart index) stop := by
      rw [Match.groupText, Match.group?, recorded]
      rfl
    have bodyOrder := (le_of_mem_ways bodyWay).1
    have short : (m.groupText t index).length ≤ stop - m.groupStart index := by
      rw [written, ← String.length_toList, toList_slice, Array.length_toList, Array.size_extract]
      omega
    omega
  refine ⟨?_, ?_, ?_⟩
  · -- Right at the opening brace the depth would be zero.
    have later : opening ≠ m.start := by
      intro same
      rw [← same, depthBetween_self] at directly
      cases directly
    omega
  · have consumed := lt_of_consumes goesOn restWay
    rcases (le_of_mem_ways restWay).2 with same | within
    · omega
    · have inBlock : (Subject.upTo t (blockEnd t opening)).stop ≤ blockEnd t opening :=
        Nat.min_le_left _ _
      omega
  · have flatBefore : depthBetween t m.start (m.groupStart index) = 0 :=
      depthBetween_of_flat flatLead.1 flatLead.2 leadWay
    have flatInside : depthBetween t (m.groupStart index) offset = 0 := by
      apply depthBetween_eq_zero
      intro k first inside
      obtain ⟨c, here, notOpening⟩ := ne_of_not_passes flatBody.1 bodyWay k first (by omega)
      obtain ⟨d, same, notClosing⟩ := ne_of_not_passes flatBody.2 bodyWay k first (by omega)
      rw [here] at same
      cases same
      exact ⟨c, here, by simp [braceStep, notOpening, notClosing]⟩
    rw [depthBetween_add t (Nat.le_trans from_ leadOrder) after, depthBetween_add t from_ leadOrder,
      directly, flatBefore, flatInside]
    rfl

end

/-! ## Class scopes -/

namespace ClassScope

theorem mem_takeWhile_of_sorted {headers : List Int} {position header : Int}
    (sorted : headers.Pairwise (· ≤ ·)) :
    header ∈ headers.takeWhile (· ≤ position) ↔ header ∈ headers ∧ header ≤ position := by
  induction sorted with
  | nil => simp
  | @cons first rest below _ inductionHypothesis =>
    rw [List.takeWhile_cons]
    by_cases reached : first ≤ position
    · simp only [reached, decide_true, ↓reduceIte, List.mem_cons, inductionHypothesis]
      grind
    · simp only [reached, decide_false, Bool.false_eq_true, ↓reduceIte, List.not_mem_nil,
        List.mem_cons, false_iff]
      grind

theorem le_getLast_of_sorted {headers : List Int} {last header : Int}
    (sorted : headers.Pairwise (· ≤ ·)) (isLast : headers.getLast? = some last)
    (member : header ∈ headers) : header ≤ last := by
  obtain ⟨earlier, rfl⟩ := List.getLast?_eq_some_iff.mp isLast
  rcases List.mem_append.mp member with before | here
  · exact (List.pairwise_append.mp sorted).2.2 header before last (by simp)
  · exact Int.le_of_eq (List.mem_singleton.mp here)

theorem sorted_headers (t : Text) (headers : List Int) :
    (ofHeaders t headers).headers.Pairwise (· ≤ ·) := by
  rw [ofHeaders]
  exact pairwise_mergeSort_key id headers

theorem mem_headers_upTo (t : Text) {headers : List Int} {position header : Int} :
    header ∈ (ofHeaders t headers).headers.takeWhile (· ≤ position) ↔
      header ∈ headers ∧ header ≤ position := by
  rw [mem_takeWhile_of_sorted (sorted_headers t headers), ofHeaders, List.mem_mergeSort]

theorem exists_lastHeader? (t : Text) {headers : List Int} {position header : Int}
    (member : header ∈ headers) (before : header ≤ position) :
    ∃ last, (ofHeaders t headers).lastHeader? position = some last ∧ last ∈ headers
      ∧ last ≤ position ∧ ∀ other ∈ headers, other ≤ position → other ≤ last := by
  -- The headers up to the position are sorted, so the last one taken is the greatest.
  cases found : (ofHeaders t headers).lastHeader? position with
  | none =>
    have here := (mem_headers_upTo t).mpr ⟨member, before⟩
    rw [List.getLast?_eq_none_iff.mp found] at here
    cases here
  | some last =>
    obtain ⟨known, reached⟩ := (mem_headers_upTo t).mp (List.mem_of_getLast? found)
    refine ⟨last, rfl, known, reached, ?_⟩
    intro other inHeaders reachedOther
    exact le_getLast_of_sorted ((sorted_headers t headers).sublist (List.takeWhile_sublist _)) found
      ((mem_headers_upTo t).mpr ⟨inHeaders, reachedOther⟩)

theorem lastHeader?_eq_some_iff (t : Text) {headers : List Int} {position header : Int} :
    (ofHeaders t headers).lastHeader? position = some header ↔
      header ∈ headers ∧ header ≤ position
        ∧ ∀ other ∈ headers, other ≤ position → other ≤ header := by
  constructor
  · intro found
    obtain ⟨member, reached⟩ := (mem_headers_upTo t).mp (List.mem_of_getLast? found)
    obtain ⟨last, isLast, greatest⟩ := exists_lastHeader? t member reached
    rw [found] at isLast
    cases isLast
    exact greatest
  · rintro ⟨member, reached, greatest⟩
    obtain ⟨last, isLast, known, reachedLast, greatestLast⟩ := exists_lastHeader? t member reached
    rw [isLast, Int.le_antisymm (greatest last known reachedLast)
      (greatestLast header member reached)]

end ClassScope

end Surveyor
