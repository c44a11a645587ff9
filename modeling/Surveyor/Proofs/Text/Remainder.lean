import Surveyor.Text.Basic

/-! # What is left of a text

A scan that stands at an offset sees the characters from there on. The lemmas here turn what is known
of them into the character at the offset, the stretch before a later offset, and what is left there.
-/

namespace Surveyor.Text

variable {t : Text} {i : Nat} {c : Char} {part rest : List Char}

theorem drop_eq_cons (here : t[i]? = some c) : t.toList.drop i = c :: t.toList.drop (i + 1) := by
  obtain ⟨inText, rfl⟩ := Array.getElem?_eq_some_iff.mp here
  rw [List.drop_eq_getElem_cons (by simpa using inText), Array.getElem_toList]

theorem getElem?_eq_head? (t : Text) (i : Nat) : t[i]? = (t.toList.drop i).head? := by
  rw [List.head?_drop, Array.getElem?_toList]

theorem getElem?_of_drop (left : t.toList.drop i = c :: rest) : t[i]? = some c := by
  rw [getElem?_eq_head?, left]
  rfl

theorem drop_of_append (left : t.toList.drop i = part ++ rest) :
    t.toList.drop (i + part.length) = rest := by
  rw [← List.drop_drop, left, List.drop_left]

theorem drop_succ (left : t.toList.drop i = c :: rest) : t.toList.drop (i + 1) = rest :=
  drop_of_append (show t.toList.drop i = [c] ++ rest from left)

theorem extract_of_append (left : t.toList.drop i = part ++ rest) :
    t.extract i (i + part.length) = part.toArray := by
  rw [← Array.toList_inj, Array.toList_extract, List.extract_eq_take_drop, left,
    Nat.add_sub_cancel_left, List.take_left]

theorem drop_length_takeWhile (p : Char → Bool) (rest : List Char) :
    rest.drop (rest.takeWhile p).length = rest.dropWhile p := by
  have parts := List.takeWhile_append_dropWhile (p := p) (l := rest)
  have behind := congrArg (List.drop (rest.takeWhile p).length) parts
  rw [List.drop_left] at behind
  exact behind.symm

/-- Whatever is taken as long as it has a property does not go on beyond what lacks it. -/
theorem takeWhile_append_of_stops {p : Char → Bool} (stops : rest.head?.any p = false) :
    (part ++ rest).takeWhile p = part.takeWhile p := by
  induction part with
  | nil =>
    cases rest with
    | nil => rfl
    | cons c rest =>
      have other : p c = false := by simpa using stops
      simp [other]
  | cons c part inductionHypothesis =>
    rw [List.cons_append, List.takeWhile_cons, List.takeWhile_cons, inductionHypothesis]

/-- A stretch that is not empty lies within the text. -/
theorem le_size_of_append (nonempty : part ≠ []) (left : t.toList.drop i = part ++ rest) :
    i + part.length ≤ t.size := by
  have shared := congrArg List.length left
  have positive := List.length_pos_iff.mpr nonempty
  simp only [List.length_drop, List.length_append, Array.length_toList] at shared
  omega

end Surveyor.Text

namespace Surveyor

/-! ## Stretches -/

theorem toList_slice (t : Text) (a b : Nat) : (t.slice a b).toList = (t.extract a b).toList := by
  rw [Text.slice, Text.asString, String.toList_ofList]

/-- A text is a stretch with what comes before it and behind it. -/
theorem toList_around_slice (t : Text) (a b : Nat) :
    t.toList = t.toList.take a ++ ((t.slice a b).toList ++ (t.toList.drop a).drop (b - a)) := by
  rw [toList_slice, Array.toList_extract, List.extract_eq_take_drop, List.take_append_drop,
    List.take_append_drop]

theorem getElem?_slice {t : Text} {a b k : Nat} (inText : b ≤ t.size) (inside : a + k < b) :
    (t.slice a b).toList[k]? = t[a + k]? := by
  rw [toList_slice, Array.getElem?_toList, Array.getElem?_extract, if_pos (by omega)]

theorem length_slice {t : Text} {a b : Nat} (inText : b ≤ t.size) : (t.slice a b).toList.length = b - a := by
  rw [toList_slice, Array.length_toList, Array.size_extract, Nat.min_eq_left inText]

end Surveyor
