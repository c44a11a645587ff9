import Surveyor.Proofs.Pattern.Edges
import Surveyor.Proofs.Pattern.Preferred
import Surveyor.Proofs.Pattern.Spelling
import Surveyor.Proofs.Text.Sorted
import Surveyor.Source.Comments

/-! # Where the spans of comments overlap

Comments are listed by their start. A block comment reaches to its end mark, a line comment to the end
of its line (`Comment.Spans`). Nothing is found in a block, and comments with the same opener do not
overlap; but blocks are looked for in line comments as well, and so are line comments with the other
opener. So two comments overlap exactly if the second one starts on the line of the first one, and
the first one is a line comment (`comments_overlap_iff`).
-/

namespace Surveyor.Comment

open Pattern

variable {t : Text} {index : LineIndex} {hashComments : Bool} {m : Match} {a b c : Comment}

/-! ## Spans -/

def inLine (c : Char) : Bool := c != '\n'

def LineEnds (t : Text) (i : Nat) : Prop := i = t.size ∨ t[i]? = some '\n'

/-- What stands in the span of a comment: a block with its marks, or a marker and the rest of its
line. -/
inductive Spans (t : Text) (c : Comment) : Prop
  | block (style : c.style = .block) (opens : Spelled t "/*" c.start) (closes : Spelled t "*/" (c.stop - 2))
      (length : c.start + 4 ≤ c.stop) (inText : c.stop ≤ t.size)
  | line (style : c.style = .line) (opens : Spelled t "//" c.start ∨ Spelled t "#" c.start)
      (stands : Stands t inLine c.start c.stop) (length : c.start < c.stop) (ends : LineEnds t c.stop)

theorem LineEnds.not_inLine {i : Nat} (ends : LineEnds t i) {d : Char} (here : t[i]? = some d) :
    inLine d = false := by
  rcases ends with rfl | lineBreak
  · simp at here
  · rw [lineBreak] at here
    cases here
    rfl

theorem Spans.start_lt_stop (spans : c.Spans t) : c.start < c.stop := by
  cases spans with
  | block _ _ _ length => omega
  | line _ _ _ length => exact length

/-- Comments start with a slash or a hash. -/
theorem Spans.opener (spans : c.Spans t) : ∃ d, t[c.start]? = some d ∧ inLine d = true := by
  cases spans with
  | block _ opens => exact ⟨'/', opens.head rfl, by decide⟩
  | line _ opens =>
    rcases opens with slashes | hash
    · exact ⟨'/', slashes.head rfl, by decide⟩
    · exact ⟨'#', hash.head rfl, by decide⟩

/-- A line comment covers what starts on its line behind it. -/
theorem Spans.lt_stop_iff (spans : a.Spans t) (style : a.style = .line) (other : b.Spans t) :
     b.start < a.stop ↔ Stands t inLine a.start b.start := by
  cases spans with
  | block isBlock =>
    rw [isBlock] at style
    cases style
  | line _ _ stands length ends =>
    constructor
    · intro inside
      exact stands.narrow (Nat.le_refl _) (Nat.le_of_lt inside)
    · intro sameLine
      rcases Nat.lt_or_ge b.start a.stop with inside | beyond
      · exact inside
      · -- The character at the end of the line is no line break then, as openers are none either.
        obtain ⟨d, here, noBreak⟩ : ∃ d, t[a.stop]? = some d ∧ inLine d = true := by
          rcases Nat.eq_or_lt_of_le beyond with atEnd | behind
          · rw [atEnd]
            exact other.opener
          · exact sameLine a.stop (Nat.le_of_lt length) behind
        rw [ends.not_inLine here] at noBreak
        cases noBreak

/-! ## Matches -/

/-- The rest of a line ends where the line ends. -/
theorem lineEnds_of_prefers {i j : Nat} {caps after : Captures}
    (taken : (Pattern.group 1 (.greedy (· != '\n') 0)).Prefers (.ofText t) i caps j after)
    (inText : j ≤ t.size) : i ≤ j ∧ Stands t inLine i j ∧ LineEnds t j := by
  obtain ⟨inner, greedy, -⟩ := taken.group
  obtain ⟨from_, stands, -⟩ := mem_ways_greedy_ofText.mp greedy.mem
  have stopped := greedy.greedy
  refine ⟨from_, stands, ?_⟩
  rcases Nat.eq_or_lt_of_le inText with atEnd | inside
  · exact .inl atEnd
  · have here : t[j]? = some t[j] := Array.getElem?_eq_getElem inside
    refine .inr ?_
    by_cases lineBreak : t[j] = '\n'
    · rw [here, lineBreak]
    · have present : (Subject.ofText t).has (· != '\n') j = true :=
        Subject.has_ofText.mpr ⟨t[j], here, by simpa using lineBreak⟩
      rw [stopped] at present
      cases present

theorem spans_ofBlock (found : m ∈ blockPattern.findAll (.ofText t)) : (ofBlock t index m).Spans t := by
  have matched := isMatch_of_mem_findAll found
  have inText := stop_le_size_of_mem_findAll (p := blockPattern) (by decide) found
  simp only [IsMatch, blockPattern, mem_ways_append, mem_ways_lit_ofText, mem_ways_group] at matched
  obtain ⟨_, _, ⟨_, _, ⟨opens, rfl, -⟩, _, body, -⟩, closes, stop, -⟩ := matched
  have := (le_of_mem_ways body).1
  have marks : "/*".length = 2 ∧ "*/".length = 2 := ⟨rfl, rfl⟩
  refine .block rfl opens ?_ ?_ inText
  · simp only [ofBlock]
    rw [stop, marks.2, Nat.add_sub_cancel]
    exact closes
  · simp only [ofBlock]
    omega

/-- The two ways of finding line comments, with what opens these. -/
inductive OpensLine : Pattern → String → Prop
  | slashes : OpensLine linePattern "//"
  | hash : OpensLine hashPattern "#"

namespace OpensLine

variable {p : Pattern} {word : String}

theorem spelled (opens : OpensLine p word) {i j : Nat} {after : Captures}
    (taken : p.Prefers (.ofText t) i [] j after) :
    Spelled t word i ∧ ∃ caps, (Pattern.group 1 (.greedy (· != '\n') 0)).Prefers (.ofText t)
      (i + word.length) caps j after := by
  cases opens with
  | slashes =>
    obtain ⟨_, caps, opening, rest⟩ := taken.append
    simp only [notAfter, mem_ways_append, mem_ways_where, mem_ways_lit_ofText] at opening
    obtain ⟨_, _, ⟨-, rfl, -⟩, spelled, rfl, -⟩ := opening
    exact ⟨spelled, caps, rest⟩
  | hash =>
    obtain ⟨_, caps, opening, rest⟩ := taken.append
    simp only [notAfter, notNext, mem_ways_append, mem_ways_where, mem_ways_char_ofText] at opening
    obtain ⟨_, _, ⟨_, _, ⟨-, rfl, -⟩, hash, rfl, -⟩, -, rfl, -⟩ := opening
    refine ⟨?_, caps, rest⟩
    intro k inWord
    obtain rfl : k = 0 := Nat.lt_one_iff.mp inWord
    exact hash

theorem stands (opens : OpensLine p word) {i : Nat} (spelled : Spelled t word i) :
    0 < word.length ∧ Stands t inLine i (i + word.length) := by
  have letters : 0 < word.length ∧ ∀ d ∈ word.toList, inLine d = true := by
    cases opens <;> exact ⟨by decide, List.all_eq_true.mp (by decide)⟩
  refine ⟨letters.1, fun k from_ inside => ?_⟩
  have inWord : k - i < word.toList.length := by
    rw [String.length_toList]
    omega
  have here := spelled (k - i) (by omega)
  rw [Nat.add_sub_cancel' from_, List.getElem?_eq_getElem inWord] at here
  exact ⟨_, here, letters.2 _ (List.getElem_mem inWord)⟩

theorem spans_of_ofLine? (opens : OpensLine p word) (found : m ∈ p.findAll (.ofText t))
    (isComment : ofLine? t index m = some c) :
    c.start = m.start ∧ c.stop = m.stop ∧ c.style = .line ∧ Spelled t word c.start ∧ c.Spans t := by
  have consuming : p.consumes = true := by cases opens <;> decide
  have inText := stop_le_size_of_mem_findAll consuming found
  obtain ⟨spelled, _, rest⟩ := opens.spelled (prefers_of_mem_findAll found)
  obtain ⟨nonempty, opening⟩ := opens.stands spelled
  obtain ⟨behind, stands, ends⟩ := lineEnds_of_prefers rest inText
  simp only [ofLine?] at isComment
  split at isComment
  · cases isComment
  · cases isComment
    refine ⟨rfl, rfl, rfl, spelled, .line rfl ?_ (opening.append stands)
      (Nat.lt_of_lt_of_le (Nat.lt_add_of_pos_right nonempty) behind) ends⟩
    cases opens with
    | slashes => exact .inl spelled
    | hash => exact .inr spelled

end OpensLine

/-! ## Two comments -/

/-- The first comment lies before the second one, or it is a line comment and the second one has another
opener. -/
def Precedes (t : Text) (a b : Comment) : Prop :=
  a.start < b.start
    ∧ (b.start < a.stop → a.style = .line ∧ (b.style = .block ∨ t[b.start]? ≠ t[a.start]?))

/-- The order of two comments of a text, of which either may come first. -/
def Ordered (t : Text) (a b : Comment) : Prop := Precedes t a b ∨ Precedes t b a

theorem ordered_of_apart {a b : Comment} (spans : a.Spans t) (apart : a.stop ≤ b.start) :
    Ordered t a b := by
  have := spans.start_lt_stop
  exact .inl ⟨by omega, fun overlap => absurd overlap (Nat.not_lt.mpr apart)⟩

/-- Two comments that are found in one search do not overlap. -/
theorem pairwise_ordered {p : Pattern} {make : Match → Option Comment}
    (spans : ∀ m ∈ p.findAll (.ofText t), ∀ c, make m = some c →
      c.start = m.start ∧ c.stop = m.stop ∧ c.Spans t)
    (kept : Match → Bool) :
    (((p.findAll (.ofText t)).filter kept).filterMap make).Pairwise (Ordered t) := by
  have apart := List.Pairwise.and_mem.mp (findAllFrom_pairwise p (.ofText t) 0)
  refine List.pairwise_filterMap.mpr ((List.Pairwise.filter _ apart).imp ?_)
  rintro m m' ⟨found, found', follows⟩ a isFirst b isSecond
  obtain ⟨-, stop, spansFirst⟩ := spans m found a isFirst
  obtain ⟨start, -, -⟩ := spans m' found' b isSecond
  refine ordered_of_apart spansFirst ?_
  rw [stop, start]
  exact Nat.le_trans (stop_le_resumeAt (isMatch_of_mem_findAll found)) follows

/-- The patterns of line comments, with their openers. -/
theorem exists_opensLine {p : Pattern}
    (listed : p ∈ if hashComments then [linePattern, hashPattern] else [linePattern]) :
    ∃ word, OpensLine p word := by
  split at listed
  · rcases List.mem_cons.mp listed with rfl | isHash
    · exact ⟨_, .slashes⟩
    · obtain rfl := List.mem_singleton.mp isHash
      exact ⟨_, .hash⟩
  · obtain rfl := List.mem_singleton.mp listed
    exact ⟨_, .slashes⟩

def linesOf (t : Text) (index : LineIndex) (outside : Match → Bool) (p : Pattern) : List Comment :=
  ((p.findAll (.ofText t)).filter outside).filterMap (ofLine? t index)

theorem spans_of_mem_linesOf {p : Pattern} {word : String} (opens : OpensLine p word)
    {outside : Match → Bool} (member : c ∈ linesOf t index outside p) :
    (∃ m, outside m = true ∧ c.start = m.start) ∧ c.style = .line ∧ Spelled t word c.start
      ∧ c.Spans t := by
  obtain ⟨m, found, isComment⟩ := List.mem_filterMap.mp member
  obtain ⟨found, isOutside⟩ := List.mem_filter.mp found
  obtain ⟨start, -, style, spelled, spans⟩ := opens.spans_of_ofLine? found isComment
  exact ⟨⟨m, isOutside, start⟩, style, spelled, spans⟩

theorem pairwise_linesOf (outside : Match → Bool) :
    ((if hashComments then [linePattern, hashPattern] else [linePattern]).flatMap
      (linesOf t index outside)).Pairwise (Ordered t) := by
  refine List.pairwise_flatMap.mpr ⟨?_, ?_⟩
  · intro p listed
    obtain ⟨word, opens⟩ := exists_opensLine listed
    refine pairwise_ordered (fun m found c isComment => ?_) outside
    obtain ⟨start, stop, -, -, spans⟩ := opens.spans_of_ofLine? found isComment
    exact ⟨start, stop, spans⟩
  · split
    · -- Slashes and hashes start at different places, and each may stand in the line of the other.
      refine List.pairwise_pair.mpr fun a isSlashed b isHashed => ?_
      obtain ⟨-, styleA, slashes, -⟩ := spans_of_mem_linesOf .slashes isSlashed
      obtain ⟨-, styleB, hash, -⟩ := spans_of_mem_linesOf .hash isHashed
      have slash : t[a.start]? = some '/' := slashes.head rfl
      have hash : t[b.start]? = some '#' := hash.head rfl
      rcases Nat.lt_trichotomy a.start b.start with before | same | behind
      · exact .inl ⟨before, fun _ => ⟨styleA, .inr (by simp [slash, hash])⟩⟩
      · rw [same, hash] at slash
        cases slash
      · exact .inr ⟨behind, fun _ => ⟨styleB, .inr (by simp [slash, hash])⟩⟩
    · exact List.pairwise_singleton _ _

def liesOutside (blocks : List Comment) (m : Match) : Bool :=
  !blocks.any fun b => b.start ≤ m.start && m.start < b.stop

/-- A line comment starts before a block or behind it. -/
theorem ordered_of_liesOutside {blocks : List Comment} (outside : liesOutside blocks m = true)
    {block : Comment} (member : block ∈ blocks) (isBlock : block.style = .block)
    (spans : block.Spans t) (isLine : c.style = .line) (start : c.start = m.start) :
    Ordered t block c := by
  rcases Nat.lt_or_ge c.start block.start with before | behind
  · exact .inr ⟨before, fun _ => ⟨isLine, .inl isBlock⟩⟩
  · refine ordered_of_apart spans (Nat.le_of_not_lt fun inside => ?_)
    rw [start] at behind inside
    simp only [liesOutside, Bool.not_eq_true', List.any_eq_false, Bool.and_eq_true,
      decide_eq_true_eq] at outside
    exact outside block member ⟨behind, inside⟩

/-- The comments as they are found, before they are put in order. -/
theorem exists_found (t : Text) (index : LineIndex) (hashComments : Bool) :
    ∃ found : List Comment,
      findAll t index hashComments = found.mergeSort (fun a b => decide (a.start ≤ b.start))
        ∧ (∀ c ∈ found, c.Spans t) ∧ found.Pairwise (Ordered t) := by
  obtain ⟨blocks, areBlocks⟩ :
      ∃ blocks, blocks = (blockPattern.findAll (.ofText t)).map (ofBlock t index) := ⟨_, rfl⟩
  have blockSpans : ∀ b ∈ blocks, b.style = .block ∧ b.Spans t := by
    rw [areBlocks]
    intro b member
    obtain ⟨m, found, rfl⟩ := List.mem_map.mp member
    exact ⟨rfl, spans_ofBlock found⟩
  have blocksOrdered : blocks.Pairwise (Ordered t) := by
    have all : (((blockPattern.findAll (.ofText t)).filter fun _ => true).filterMap
        fun m => some (ofBlock t index m)).Pairwise (Ordered t) := by
      refine pairwise_ordered (fun m found c isComment => ?_) _
      obtain rfl := Option.some.inj isComment
      exact ⟨rfl, rfl, spans_ofBlock found⟩
    rw [List.filterMap_eq_map', List.filter_eq_self.mpr fun _ _ => rfl] at all
    exact areBlocks ▸ all
  have lineSpans : ∀ c ∈ (if hashComments then [linePattern, hashPattern] else [linePattern]).flatMap
      (linesOf t index (liesOutside blocks)),
      (∃ m, liesOutside blocks m = true ∧ c.start = m.start) ∧ c.style = .line ∧ c.Spans t := by
    intro c member
    obtain ⟨p, listed, found⟩ := List.mem_flatMap.mp member
    obtain ⟨word, opens⟩ := exists_opensLine listed
    obtain ⟨isOutside, style, -, spans⟩ := spans_of_mem_linesOf opens found
    exact ⟨isOutside, style, spans⟩
  refine ⟨blocks ++ (if hashComments then [linePattern, hashPattern] else [linePattern]).flatMap
    (linesOf t index (liesOutside blocks)), areBlocks ▸ rfl, ?_, ?_⟩
  · intro c member
    rcases List.mem_append.mp member with isBlock | isLine
    · exact (blockSpans c isBlock).2
    · exact (lineSpans c isLine).2.2
  · -- Line comments are sought outside the blocks only.
    refine List.pairwise_append.mpr ⟨blocksOrdered, pairwise_linesOf _, ?_⟩
    intro b isBlock c isLine
    obtain ⟨style, spans⟩ := blockSpans b isBlock
    obtain ⟨⟨m, isOutside, start⟩, isLine, -⟩ := lineSpans c isLine
    exact ordered_of_liesOutside isOutside isBlock style spans isLine start

/-! ## All comments -/

/-- The comments of a text have spans, and in their order each precedes those behind it. -/
theorem precedes_of_findAll (t : Text) (index : LineIndex) (hashComments : Bool) :
    (∀ c ∈ findAll t index hashComments, c.Spans t)
      ∧ (findAll t index hashComments).Pairwise (Precedes t) := by
  obtain ⟨found, sorted, spans, ordered⟩ := exists_found t index hashComments
  rw [sorted]
  refine ⟨fun c member => spans c (List.mem_mergeSort.mp member), ?_⟩
  have starts := pairwise_mergeSort_key Comment.start found
  have stillOrdered := ((List.mergeSort_perm found fun a b => decide (a.start ≤ b.start)).pairwise_iff
    fun either => either.symm).mpr ordered
  refine (starts.and stillOrdered).imp ?_
  rintro a b ⟨start, before | behind⟩
  · exact before
  · have := behind.1
    omega

/-- Comments are listed by their start, each with the span that it was found on. A block comment lies
before all that follows it. A line comment overlaps just those comments that start behind it on its line,
which are blocks and line comments with the other opener. So no two comments overlap exactly if on no
line another comment starts behind a line comment. -/
theorem comments_overlap_iff (t : Text) (index : LineIndex) (hashComments : Bool) :
    let comments := findAll t index hashComments
    (∀ c ∈ comments, c.Spans t)
      ∧ comments.Pairwise (fun a b => a.start < b.start
        ∧ (b.start < a.stop ↔ a.style = .line ∧ Stands t inLine a.start b.start)
        ∧ (b.start < a.stop → b.style = .block ∨ t[b.start]? ≠ t[a.start]?))
      ∧ (comments.Pairwise (fun a b => a.stop ≤ b.start)
        ↔ ∀ a ∈ comments, a.style = .line → ∀ b ∈ comments, a.start < b.start →
          ¬ Stands t inLine a.start b.start) := by
  intro comments
  obtain ⟨spans, precedes⟩ := precedes_of_findAll t index hashComments
  have overlaps : comments.Pairwise fun a b => Precedes t a b
      ∧ (b.start < a.stop ↔ a.style = .line ∧ Stands t inLine a.start b.start) := by
    refine (List.Pairwise.and_mem.mp precedes).imp ?_
    rintro a b ⟨inA, inB, before⟩
    refine ⟨before, fun inside => ?_, fun ⟨isLine, sameLine⟩ => ?_⟩
    · have isLine := (before.2 inside).1
      exact ⟨isLine, ((spans a inA).lt_stop_iff isLine (spans b inB)).mp inside⟩
    · exact ((spans a inA).lt_stop_iff isLine (spans b inB)).mpr sameLine
  refine ⟨spans, overlaps.imp ?_, ?_, ?_⟩
  · rintro a b ⟨before, sameLine⟩
    exact ⟨before.1, sameLine, fun inside => (before.2 inside).2⟩
  · intro apart a inA isLine b inB behind sameLine
    have inside := ((spans a inA).lt_stop_iff isLine (spans b inB)).mpr sameLine
    -- Of the two the one that starts first is listed first.
    have inOrder : comments.Pairwise fun a b => a.start < b.start → a.stop ≤ b.start := by
      refine apart.imp ?_
      intro a b beyond _
      exact beyond
    have reversed : comments.Pairwise fun a b => b.start < a.start → b.stop ≤ a.start :=
      precedes.imp fun before after => absurd before.1 (Nat.lt_asymm after)
    have beyond := List.Pairwise.forall_of_forall_of_flip (fun _ _ same => absurd same (Nat.lt_irrefl _))
      inOrder reversed inA inB behind
    omega
  · intro free
    refine (List.Pairwise.and_mem.mp overlaps).imp ?_
    rintro a b ⟨inA, inB, before, sameLine⟩
    refine Nat.le_of_not_lt fun inside => ?_
    obtain ⟨isLine, stands⟩ := sameLine.mp inside
    exact free a inA isLine b inB before.1 stands

/-- A block is found in the line comment around it as well. -/
example : ∃ a ∈ findAll (.ofString "// a /* b */") ⟨#[0], 1⟩ false,
    ∃ b ∈ findAll (.ofString "// a /* b */") ⟨#[0], 1⟩ false,
      a.text = "a /* b */" ∧ b.text = "b" ∧ a.start < b.start ∧ b.start < a.stop := by
  simp only [findAll, List.mem_mergeSort]
  decide +kernel

end Surveyor.Comment
