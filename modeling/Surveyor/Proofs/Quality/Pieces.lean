import Surveyor.Proofs.Pattern.Edges
import Surveyor.Proofs.Quality.Calls
import Surveyor.Proofs.Text.Remainder

/-! # Names taken out of a longer text

What the patterns of use record is cut down to single names: at commas, at the last separator of a
qualified name, or into identifiers. A name that is left stands in the text as a *piece*: no ASCII
letter or underscore before it and no word character after it. That is more than a name between two
boundaries; a piece of a longer name may follow a dollar sign, a digit or a letter beyond ASCII, and
may be followed by a dollar sign.
-/

namespace Surveyor

namespace Reference

open Pattern

variable {t : Text} {n : String} {i : Nat}

def opensPiece (c : Char) : Bool := !(c == '_' || c.isAlpha)

def closesPiece (c : Char) : Bool := !isWordChar c

/-- The name stands at the offset, perhaps as a piece of a longer one. -/
structure PieceAt (t : Text) (n : String) (i : Nat) : Prop where
  here : ∀ k, k < n.length → t[i + k]? = n.toList[k]?
  before : ∀ c, 0 < i → t[i - 1]? = some c → opensPiece c = true
  after : ∀ c, t[i + n.length]? = some c → closesPiece c = true

theorem opensPiece_of_not_isNameStart {c : Char} (other : isNameStart c = false) :
    opensPiece c = true := by
  simp only [isNameStart, Bool.or_eq_false_iff] at other
  simp [opensPiece, other.1.2, other.2]

theorem opensPiece_eq_false {c : Char} :
    opensPiece c = false ↔ (c == '_' || c.isAlpha) = true := by
  rw [opensPiece, Bool.not_eq_false']

theorem isWordChar_of_letter {c : Char} (letter : (c == '_' || c.isAlpha) = true) :
    isWordChar c = true := by
  have starts : isNameStart c = true := by
    rw [isNameStart, Bool.or_assoc, letter, Bool.or_true]
  apply isWordChar_of_isNameChar (isNameChar_of_isNameStart starts)
  rintro rfl
  cases letter

theorem opensPiece_of_not_isNameChar {c : Char} (other : isNameChar c = false) :
    opensPiece c = true := by
  apply opensPiece_of_not_isNameStart
  cases starts : isNameStart c with
  | false => rfl
  | true => rw [← other, isNameChar_of_isNameStart starts]

theorem closesPiece_of_not_isNameChar {c : Char} (other : isNameChar c = false) :
    closesPiece c = true := by
  simp only [isNameChar, Bool.or_eq_false_iff] at other
  simp [closesPiece, other.2]

theorem opensPiece_of_isBlank {c : Char} (blank : isBlank c = true) : opensPiece c = true :=
  opensPiece_of_not_isNameChar (not_isNameChar_of_isBlank blank)

theorem closesPiece_of_isBlank {c : Char} (blank : isBlank c = true) : closesPiece c = true :=
  closesPiece_of_not_isNameChar (not_isNameChar_of_isBlank blank)

/-! ## Pieces of lists -/

/-- One list stands in another one from an offset on, between characters that may surround a piece. -/
def IsPiece (part whole : List Char) (offset : Nat) : Prop :=
  ∃ pre post, whole = pre ++ part ++ post ∧ pre.length = offset
    ∧ (∀ c, pre.getLast? = some c → opensPiece c = true)
    ∧ ∀ c, post.head? = some c → closesPiece c = true

namespace IsPiece

variable {part middle whole : List Char}

theorem refl (chars : List Char) : IsPiece chars chars 0 :=
  ⟨[], [], by simp, rfl, by simp, by simp⟩

theorem trans {inner outer : Nat} (first : IsPiece part middle inner)
    (second : IsPiece middle whole outer) : IsPiece part whole (outer + inner) := by
  obtain ⟨pre, post, rfl, rfl, opens, closes⟩ := first
  obtain ⟨pre', post', rfl, rfl, opens', closes'⟩ := second
  refine ⟨pre' ++ pre, post ++ post', by simp, by simp, ?_, ?_⟩
  · intro c last
    rw [List.getLast?_append] at last
    cases inner : pre.getLast? with
    | none => exact opens' c (by simpa [inner] using last)
    | some d => exact opens c (by simpa [inner] using last)
  · intro c first
    rw [List.head?_append] at first
    cases inner : post.head? with
    | none => exact closes' c (by simpa [inner] using first)
    | some d => exact closes c (by simpa [inner] using first)

theorem dropWhile {p : Char → Bool} (opens : ∀ c, p c = true → opensPiece c = true)
    (chars : List Char) : ∃ offset, IsPiece (chars.dropWhile p) chars offset := by
  refine ⟨_, chars.takeWhile p, [], by simp, rfl, ?_, by simp⟩
  intro c last
  exact opens c (List.all_eq_true.mp List.all_takeWhile c (List.mem_of_getLast? last))

theorem dropRightWhile {p : Char → Bool} (closes : ∀ c, p c = true → closesPiece c = true)
    (chars : List Char) : IsPiece (Text.dropRightWhile p chars) chars 0 := by
  refine ⟨[], (chars.reverse.takeWhile p).reverse, ?_, rfl, by simp, ?_⟩
  · rw [List.nil_append, Text.dropRightWhile, ← List.reverse_append, List.takeWhile_append_dropWhile,
      List.reverse_reverse]
  · intro c first
    rw [List.head?_reverse] at first
    exact closes c (List.all_eq_true.mp List.all_takeWhile c (List.mem_of_getLast? first))

/-- The characters after the last one that is not of a class. -/
theorem lastRun {p : Char → Bool} (opens : ∀ c, p c = false → opensPiece c = true)
    (chars : List Char) : ∃ offset, IsPiece (chars.reverse.takeWhile p).reverse chars offset := by
  refine ⟨_, (chars.reverse.dropWhile p).reverse, [], ?_, rfl, ?_, by simp⟩
  · rw [List.append_nil, ← List.reverse_append, List.takeWhile_append_dropWhile, List.reverse_reverse]
  · intro c last
    rw [List.getLast?_reverse] at last
    have stopped := List.head?_dropWhile_not p chars.reverse
    rw [last] at stopped
    exact opens c (by simpa using stopped)

theorem strip (chars : List Char) :
    ∃ offset, IsPiece (Text.stripChars isBlank chars) chars offset := by
  obtain ⟨offset, left⟩ := dropWhile (fun _ => opensPiece_of_isBlank) chars
  exact ⟨_, (dropRightWhile (fun _ => closesPiece_of_isBlank) _).trans left⟩

end IsPiece

/-! ## Parts of a comma list -/

/-- The first part runs up to the first separator, the others stand between separators. -/
theorem splitChars_eq (separator : Char) (chars : List Char) :
    ∃ first others, Text.splitChars separator chars = first :: others
      ∧ (∃ post, chars = first ++ post ∧ ∀ c, post.head? = some c → c = separator)
      ∧ ∀ part ∈ others, ∃ pre post, chars = pre ++ separator :: (part ++ post)
        ∧ ∀ c, post.head? = some c → c = separator := by
  induction chars with
  | nil => exact ⟨[], [], rfl, ⟨[], rfl, by simp⟩, by simp⟩
  | cons c rest inductionHypothesis =>
    obtain ⟨first, others, split, ⟨post, leads, stops⟩, between⟩ := inductionHypothesis
    -- A character is put in front of the first part of the rest, a separator opens a new one.
    have step : Text.splitChars separator (c :: rest)
        = if c == separator then [] :: first :: others else (c :: first) :: others := by
      unfold Text.splitChars at split ⊢
      rw [List.foldr_cons, split]
    have later : ∀ part ∈ others, ∃ pre post, c :: rest = pre ++ separator :: (part ++ post)
        ∧ ∀ c, post.head? = some c → c = separator := by
      intro part member
      obtain ⟨pre, post, same, ends⟩ := between part member
      exact ⟨c :: pre, post, by simp [same], ends⟩
    rw [step]
    by_cases cut : c = separator
    · subst cut
      simp only [beq_self_eq_true, ↓reduceIte]
      refine ⟨[], first :: others, rfl, ⟨c :: rest, rfl, by simp⟩, ?_⟩
      intro part member
      rcases List.mem_cons.mp member with rfl | inOthers
      · exact ⟨[], post, by simp [leads], stops⟩
      · exact later part inOthers
    · simp only [beq_iff_eq, cut, ↓reduceIte]
      exact ⟨c :: first, others, rfl, ⟨post, by simp [leads], stops⟩, later⟩

theorem isPiece_of_mem_split {separator : Char} (opens : opensPiece separator = true)
    (closes : closesPiece separator = true) {part names : String}
    (member : part ∈ Text.split separator names) :
    ∃ offset, IsPiece part.toList names.toList offset := by
  obtain ⟨chars, inParts, rfl⟩ := List.mem_map.mp member
  rw [String.toList_ofList]
  obtain ⟨first, others, split, ⟨post, leads, stops⟩, between⟩ := splitChars_eq separator names.toList
  rw [split] at inParts
  rcases List.mem_cons.mp inParts with rfl | inOthers
  · refine ⟨0, [], post, by simpa using leads, rfl, by simp, ?_⟩
    intro c next
    rw [stops c next]
    exact closes
  · obtain ⟨pre, post, same, ends⟩ := between chars inOthers
    refine ⟨_, pre ++ [separator], post, by simp [same], rfl, ?_, ?_⟩
    · intro c last
      rw [List.getLast?_concat] at last
      cases last
      exact opens
    · intro c next
      rw [ends c next]
      exact closes

theorem isPiece_lastSegment (qualified : String) :
    ∃ offset, IsPiece (lastSegment qualified).toList qualified.toList offset := by
  obtain ⟨_, stripped⟩ := IsPiece.strip qualified.toList
  have trimmed := IsPiece.dropRightWhile (p := (· == '\\'))
    (by rintro c same; rw [beq_iff_eq.mp same]; decide) (Text.stripChars isBlank qualified.toList)
  have separators : ∀ c, (c != '\\' && c != '.') = false → opensPiece c = true := by
    intro c separates
    simp only [Bool.and_eq_false_iff, bne_eq_false_iff_eq] at separates
    rcases separates with rfl | rfl
    · decide
    · decide
  obtain ⟨_, last⟩ := IsPiece.lastRun separators
    (Text.dropRightWhile (· == '\\') (Text.stripChars isBlank qualified.toList))
  rw [lastSegment, String.toList_ofList]
  exact ⟨_, (last.trans trimmed).trans stripped⟩

/-! ## Stretches of the text -/

/-- What stands on both sides of a recorded stretch: a piece may open right at its start and, unless
the stretch ends on something else than a name, close right at its end. -/
structure Edged (t : Text) (a b : Nat) : Prop where
  order : a ≤ b
  inText : b ≤ t.size
  before : ∀ c, 0 < a → t[a - 1]? = some c → opensPiece c = true
  after : ∀ c d, t[b - 1]? = some c → isNameChar c = true → t[b]? = some d → closesPiece d = true

/-- A piece of a recorded stretch is a piece of the text. -/
theorem pieceAt_of_isPiece {a b offset : Nat} (edged : Edged t a b)
    (names : ∀ c ∈ n.toList, isNameChar c = true) (nonempty : 0 < n.length)
    (piece : IsPiece n.toList (t.slice a b).toList offset) :
    PieceAt t n (a + offset) ∧ a + offset + n.length ≤ b := by
  obtain ⟨pre, post, whole, rfl, opens, closes⟩ := piece
  have total : (t.slice a b).toList.length = pre.length + n.length + post.length := by
    rw [whole, List.length_append, List.length_append, String.length_toList]
  rw [length_slice edged.inText] at total
  have char : ∀ k, a + k < b → t[a + k]? = (pre ++ n.toList ++ post)[k]? := by
    intro k inside
    rw [← whole, getElem?_slice edged.inText inside]
  have fits : a + pre.length + n.length ≤ b := by
    have := edged.order
    omega
  have here : ∀ k, k < n.length → t[a + pre.length + k]? = n.toList[k]? := by
    intro k inName
    rw [Nat.add_assoc, char (pre.length + k) (by omega), List.append_assoc,
      List.getElem?_append_right (by omega), Nat.add_sub_cancel_left,
      List.getElem?_append_left (by rw [String.length_toList]; omega)]
  refine ⟨⟨here, ?_, ?_⟩, fits⟩
  · -- Before the piece stands a character of the stretch, or the one that the stretch itself follows.
    intro c positive previous
    rcases Nat.eq_zero_or_pos pre.length with first | later
    · rw [first, Nat.add_zero] at positive previous
      exact edged.before c positive previous
    · apply opens
      rw [List.getLast?_eq_getElem?, ← previous,
        show a + pre.length - 1 = a + (pre.length - 1) by omega, char (pre.length - 1) (by omega),
        List.append_assoc, List.getElem?_append_left (by omega)]
  · intro c next
    rcases Nat.eq_zero_or_pos post.length with last | further
    · -- The stretch ends with the piece, so its last character is one of a name.
      have ends : a + pre.length + n.length = b := by omega
      have lastHere := here (n.length - 1) (by omega)
      have inName : n.length - 1 < n.toList.length := by
        rw [String.length_toList]
        omega
      rw [List.getElem?_eq_getElem inName,
        show a + pre.length + (n.length - 1) = b - 1 by omega] at lastHere
      exact edged.after _ c lastHere (names _ (List.getElem_mem inName)) (by rw [← ends]; exact next)
    · apply closes
      rw [List.head?_eq_getElem?, ← next,
        show a + pre.length + n.length = a + (pre.length + n.length) by omega,
        char (pre.length + n.length) (by omega), ← String.length_toList, ← List.length_append,
        List.getElem?_append_right (Nat.le_refl _), Nat.sub_self]

/-! ## Identifiers of a stretch -/

/-- An identifier does not start behind a character with which it could have started. -/
theorem not_isNameStart_before {t : Text} {m : Match} {c : Char}
    (found : m ∈ identifier.findAll (.ofText t)) (positive : 0 < m.start)
    (previous : t[m.start - 1]? = some c) : isNameStart c = false := by
  obtain ⟨second, _, firstWay, -⟩ := Prefers.append (prefers_of_mem_findAll found)
  obtain ⟨starts, rfl, -⟩ := mem_ways_one.mp firstWay
  have inText := Subject.has_lt_stop starts
  cases alsoStarts : isNameStart c with
  | false => rfl
  | true =>
    -- Had the search been able to start at the character before, it would have.
    have present : (Subject.ofText t).has isNameStart (m.start - 1) = true :=
      Subject.has_ofText.mpr ⟨c, previous, alsoStarts⟩
    have earlierWays : identifier.ways (.ofText t) (m.start - 1) [] ≠ [] := by
      apply List.ne_nil_of_mem (a := (m.start, ([] : Captures)))
      refine mem_ways_append.mpr ⟨m.start, [], mem_ways_one.mpr ⟨present, by omega, rfl⟩, ?_⟩
      exact mem_ways_greedy.mpr ⟨by omega, fun k from_ inside => by omega, rfl⟩
    obtain ⟨earlier, foundEarlier, adjacent⟩ :=
      ends_before rfl found positive (Nat.le_of_lt inText) earlierWays
    obtain ⟨_, _, _, earlierRest⟩ := Prefers.append (prefers_of_mem_findAll foundEarlier)
    have earlierStopped := Prefers.greedy earlierRest
    rw [adjacent, Subject.has_mono (fun _ => isNameChar_of_isNameStart) starts] at earlierStopped
    cases earlierStopped

theorem isPiece_of_mem_identifiers {stretch : String} (member : n ∈ identifiers stretch) :
    ∃ offset, IsPiece n.toList stretch.toList offset := by
  obtain ⟨m, found, rfl⟩ := List.mem_map.mp member
  obtain ⟨_, _, _, rest⟩ := Prefers.append (prefers_of_mem_findAll found)
  have stopped := Prefers.greedy rest
  have isMatch := isMatch_of_mem_findAll found
  have advances : m.start < m.stop := lt_of_consumes rfl isMatch
  have inText : m.stop ≤ (Text.ofString stretch).size := isMatch.stop_le advances
  have chars : stretch.toList = (Text.ofString stretch).toList := rfl
  refine ⟨m.start, (Text.ofString stretch).toList.take m.start,
    (Text.ofString stretch).toList.drop m.stop, ?_, ?_, ?_, ?_⟩
  · have around := toList_around_slice (Text.ofString stretch) m.start m.stop
    rw [List.drop_drop, Nat.add_sub_cancel' (Nat.le_of_lt advances)] at around
    rw [chars, List.append_assoc]
    exact around
  · rw [List.length_take, Array.length_toList]
    omega
  · -- An earlier start would have been found first.
    intro c last
    rw [List.getLast?_eq_getElem?, List.length_take, Array.length_toList,
      Nat.min_eq_left (by omega), List.getElem?_take, Array.getElem?_toList] at last
    split at last
    · next positive =>
      exact opensPiece_of_not_isNameStart (not_isNameStart_before found (by omega) last)
    · cases last
  · -- The identifier takes every character of a name that it can.
    intro c next
    rw [List.head?_drop, Array.getElem?_toList] at next
    apply closesPiece_of_not_isNameChar
    cases inName : isNameChar c with
    | false => rfl
    | true =>
      rw [Subject.has_ofText.mpr ⟨c, next, inName⟩] at stopped
      cases stopped

end Reference

end Surveyor
