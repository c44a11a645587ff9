import Surveyor.Proofs.Source.LineNumbers
import Surveyor.Proofs.Text.Words
import Surveyor.Source.Parameters

/-! # Parameters with default values

A parameter list is cut at every comma, those in default values among them. What stands in a default value
behind a comma is read like a parameter of its own, and declares something unless it is silent: blank, or a
spread marker alone, up to its end or to a default value of its own. So a list is read as the declarations of
its parameters exactly if all that stands behind commas in its default values is silent
(`declarations_read_iff`).
-/

namespace Surveyor

open Text

variable {chars rest lead : List Char}

/-! ## Declarations -/

/-- The end of a text, or a default value with its equals sign. -/
def IsDefault (rest : List Char) : Prop :=
  rest = [] ∨ ∃ value, rest = '=' :: value ∧ value.head? ≠ some '>'

/-- One step of the reading from the right: what is kept behind a character, and the character there. -/
def keepBefore (c : Char) (behind : List Char × Option Char) : List Char × Option Char :=
  if c == '=' && behind.2 != some '>' then ([], some c) else (c :: behind.1, some c)

theorem beforeDefault_eq (chars : List Char) :
    beforeDefault chars = (chars.foldr keepBefore ([], none)).1 := rfl

/-- The character that the reading remembers is the one that follows. -/
theorem remembered_eq_head? (chars : List Char) :
    (chars.foldr keepBefore ([], none)).2 = chars.head? := by
  cases chars with
  | nil => rfl
  | cons c chars =>
    rw [List.foldr_cons, keepBefore]
    split <;> rfl

theorem beforeDefault_cons (c : Char) (rest : List Char) :
    beforeDefault (c :: rest)
      = if c == '=' && rest.head? != some '>' then [] else c :: beforeDefault rest := by
  rw [beforeDefault_eq, List.foldr_cons, keepBefore, remembered_eq_head?, beforeDefault_eq]
  split <;> rfl

theorem beforeDefault_append (plain : '=' ∉ chars) (default : IsDefault rest) :
    beforeDefault (chars ++ rest) = chars := by
  induction chars with
  | nil =>
    rcases default with rfl | ⟨value, rfl, noArrow⟩
    · rfl
    · rw [List.nil_append, beforeDefault_cons, if_pos (by simpa using noArrow)]
  | cons c chars inductionHypothesis =>
    rw [List.mem_cons, not_or] at plain
    rw [List.cons_append, beforeDefault_cons, if_neg (by simp [Ne.symm plain.1]),
      inductionHypothesis plain.2]

theorem exists_isDefault (chars : List Char) :
    ∃ rest, IsDefault rest ∧ chars = beforeDefault chars ++ rest := by
  induction chars with
  | nil => exact ⟨[], .inl rfl, rfl⟩
  | cons c chars inductionHypothesis =>
    rw [beforeDefault_cons]
    split
    · next starts =>
      simp only [Bool.and_eq_true, beq_iff_eq, bne_iff_ne] at starts
      obtain ⟨rfl, noArrow⟩ := starts
      exact ⟨'=' :: chars, .inr ⟨chars, rfl, noArrow⟩, rfl⟩
    · obtain ⟨rest, default, split⟩ := inductionHypothesis
      exact ⟨rest, default, by rw [List.cons_append, ← split]⟩

theorem IsDefault.of_append (default : IsDefault (chars ++ rest)) : IsDefault chars := by
  cases chars with
  | nil => exact .inl rfl
  | cons c chars =>
    rcases default with empty | ⟨value, starts, noArrow⟩
    · cases empty
    · rw [List.cons_append, List.cons.injEq] at starts
      obtain ⟨rfl, rfl⟩ := starts
      refine .inr ⟨chars, rfl, fun arrow => noArrow ?_⟩
      rw [List.head?_append, arrow]
      rfl

/-- Nothing but blanks, perhaps with a spread marker among them. -/
def IsBare (chars : List Char) : Prop :=
  IsGap chars ∨ ∃ lead trail, IsGap lead ∧ IsGap trail ∧ chars = lead ++ (['.', '.', '.'] ++ trail)

def IsSilent (piece : List Char) : Prop :=
  ∃ bare rest, IsBare bare ∧ IsDefault rest ∧ piece = bare ++ rest

theorem IsBare.plain (bare : IsBare chars) : '=' ∉ chars := by
  have notBlank : ∀ {gap : List Char}, IsGap gap → '=' ∉ gap :=
    fun gap member => absurd (gap '=' member) (by decide)
  rcases bare with gap | ⟨lead, trail, before, behind, rfl⟩
  · exact notBlank gap
  · simp [notBlank before, notBlank behind]

theorem isBare_iff : IsBare chars ↔
    stripChars isBlank chars = [] ∨ stripChars isBlank chars = ['.', '.', '.'] := by
  constructor
  · rintro (gap | ⟨lead, trail, before, behind, rfl⟩)
    · exact .inl (stripChars_gap gap)
    · have dots : ['.', '.', '.'] = ['.', '.'] ++ ['.'] := rfl
      exact .inr (stripChars_between before behind rfl (by decide) dots (by decide))
  · rintro (empty | marker)
    · exact .inl (stripChars_eq_nil_iff.mp empty)
    · obtain ⟨lead, trail, before, behind, split⟩ := exists_strip chars
      exact .inr ⟨lead, trail, before, behind, by rw [← marker, ← split]⟩

theorem parameterDeclaration_eq_nil_iff {piece : List Char} :
    parameterDeclaration piece = [] ↔ IsSilent piece := by
  have declaresNothing : parameterDeclaration piece = [] ↔ IsBare (beforeDefault piece) := by
    rw [isBare_iff, parameterDeclaration]
    split
    · next rest marked => simp [marked]
    · next unmarked =>
      refine ⟨.inl, ?_⟩
      rintro (empty | marker)
      · exact empty
      · exact absurd marker (unmarked [])
  rw [declaresNothing]
  constructor
  · intro bare
    obtain ⟨rest, default, split⟩ := exists_isDefault piece
    exact ⟨_, rest, bare, default, split⟩
  · rintro ⟨chars, rest, bare, default, rfl⟩
    rwa [beforeDefault_append bare.plain default]

/-! ## Texts cut at commas -/

/-- What is declared by the pieces of a text between its commas. -/
def declaredIn (pieces : List (List Char)) : List (List Char) :=
  (pieces.map parameterDeclaration).filter (!·.isEmpty)

theorem declaredIn_eq_nil_iff {pieces : List (List Char)} :
    declaredIn pieces = [] ↔ ∀ piece ∈ pieces, IsSilent piece := by
  simp [declaredIn, List.filter_eq_nil_iff, parameterDeclaration_eq_nil_iff]

/-- What is blank has one piece, which declares nothing, so it needs no treatment of its own. -/
theorem parameterNames_eq (params : String) :
    parameterNames params = (declaredIn (splitChars ',' params.toList)).map String.ofList := by
  rw [parameterNames]
  split
  · next blank =>
    have gap : IsGap params.toList := List.all_eq_true.mp blank
    have noComma : ',' ∉ params.toList := fun member => absurd (gap ',' member) (by decide)
    have onePiece := splitChars_append_of_not_mem noComma (show splitChars ',' [] = [[]] from rfl)
    rw [List.append_nil] at onePiece
    have silent : IsSilent params.toList := ⟨_, [], .inl gap, .inl rfl, (List.append_nil _).symm⟩
    rw [onePiece, declaredIn_eq_nil_iff.mpr (by simpa using silent), List.map_nil]
  · rfl

theorem declaredIn_append (pieces others : List (List Char)) :
    declaredIn (pieces ++ others) = declaredIn pieces ++ declaredIn others := by
  rw [declaredIn, List.map_append, List.filter_append]
  rfl

/-- A blank in front of a text does not count. -/
theorem declaredIn_blank (chars : List Char) :
    declaredIn (splitChars ',' (' ' :: chars)) = declaredIn (splitChars ',' chars) := by
  obtain ⟨part, others, split⟩ := List.exists_cons_of_ne_nil (splitChars_ne_nil ',' chars)
  have same : parameterDeclaration (' ' :: part) = parameterDeclaration part := by
    rw [parameterDeclaration, beforeDefault_cons, if_neg (by simp)]
    rfl
  rw [splitChars_cons_of_ne (by decide) split, split]
  simp only [declaredIn, List.map_cons, same]

/-! ## Written parameters -/

/-- A parameter as it is written: a declaration, and perhaps a default value behind an equals sign. -/
structure WrittenParameter where
  declaration : String
  default? : Option String
  filled : Text.isBlankString declaration = false
  plain : '=' ∉ declaration.toList ∧ ',' ∉ declaration.toList
  unspread : ¬ ['.', '.', '.'] <+: (Text.strip declaration).toList
  noArrow : ∀ value ∈ default?, value.toList.head? ≠ some '>'

namespace WrittenParameter

def ending (p : WrittenParameter) : List Char :=
  match p.default? with
  | some value => '=' :: value.toList
  | none => []

def written (p : WrittenParameter) : String := String.ofList (p.declaration.toList ++ p.ending)

def name (p : WrittenParameter) : String := Text.strip p.declaration

/-- What stands behind the commas of the default value, cut at these. -/
def piecesBehindCommas (p : WrittenParameter) : List (List Char) := (splitChars ',' p.ending).tail

/-- What is declared behind the commas of the default value. -/
def strayNames (p : WrittenParameter) : List String :=
  (declaredIn p.piecesBehindCommas).map String.ofList

theorem isDefault_ending (p : WrittenParameter) : IsDefault p.ending := by
  unfold ending
  split
  · next value given => exact .inr ⟨value.toList, rfl, p.noArrow value given⟩
  · exact .inl rfl

theorem toList_name (p : WrittenParameter) :
    p.name.toList = stripChars isBlank p.declaration.toList := by
  rw [name, Text.strip, stripWhere, String.toList_ofList]

theorem name_ne_nil (p : WrittenParameter) : p.name.toList ≠ [] := by
  rw [toList_name, ne_eq, stripChars_eq_nil_iff]
  intro blank
  have filled := p.filled
  rw [isBlankString, List.all_eq_true.mpr blank] at filled
  cases filled

theorem parameterDeclaration_of_default (p : WrittenParameter) (default : IsDefault rest) :
    parameterDeclaration (p.declaration.toList ++ rest) = p.name.toList := by
  rw [parameterDeclaration, beforeDefault_append p.plain.1 default, toList_name]
  split
  · next others marked =>
    have unspread := p.unspread
    rw [← name, toList_name, marked] at unspread
    exact absurd (List.prefix_append _ others) unspread
  · rfl

/-- A comma in the default value ends what belongs to the declaration. -/
theorem declaredIn_written (p : WrittenParameter) :
    declaredIn (splitChars ',' p.written.toList)
      = p.name.toList :: declaredIn p.piecesBehindCommas := by
  obtain ⟨first, others, split, ⟨behind, leads, -⟩, -⟩ := Reference.splitChars_eq ',' p.ending
  have default : IsDefault first := (leads ▸ p.isDefault_ending).of_append
  rw [written, String.toList_ofList, splitChars_append_of_not_mem p.plain.2 split, piecesBehindCommas,
    split, List.tail_cons, declaredIn, List.map_cons, p.parameterDeclaration_of_default default]
  exact List.filter_cons_of_pos (by simpa using p.name_ne_nil)

end WrittenParameter

def writtenList (params : List WrittenParameter) : String :=
  Text.join ", " (params.map (·.written))

theorem toList_writtenList (params : List WrittenParameter) :
    (writtenList params).toList = [',', ' '].intercalate (params.map (·.written.toList)) := by
  rw [writtenList, Text.join, String.toList_intercalate, List.map_map]
  rfl

theorem declaredIn_writtenList {params : List WrittenParameter} (given : params ≠ []) :
    declaredIn (splitChars ',' (writtenList params).toList)
      = params.flatMap fun p => p.name.toList :: declaredIn p.piecesBehindCommas := by
  rw [toList_writtenList]
  induction params with
  | nil => exact absurd rfl given
  | cons p params inductionHypothesis =>
    cases params with
    | nil => simpa using p.declaredIn_written
    | cons next params =>
      have behind := inductionHypothesis (List.cons_ne_nil next params)
      rw [List.map_cons, List.intercalate_cons_of_ne_nil (by simp), List.append_assoc, List.cons_append,
        splitChars_append_cons, declaredIn_append, p.declaredIn_written, List.singleton_append,
        declaredIn_blank, behind]
      rfl

theorem length_le_flatMap_cons {α β : Type} (name : α → β) (further : α → List β) (items : List α) :
    items.length ≤ (items.flatMap fun item => name item :: further item).length := by
  induction items with
  | nil => exact Nat.le_refl 0
  | cons item items inductionHypothesis =>
    simp only [List.flatMap_cons, List.length_append, List.length_cons]
    omega

theorem flatMap_cons_eq_map_iff {α β : Type} {name : α → β} {further : α → List β} {items : List α} :
    items.flatMap (fun item => name item :: further item) = items.map name
      ↔ ∀ item ∈ items, further item = [] := by
  induction items with
  | nil => simp
  | cons item items inductionHypothesis =>
    rw [List.flatMap_cons, List.map_cons, List.cons_append, List.cons.injEq, List.forall_mem_cons,
      ← inductionHypothesis]
    constructor
    · rintro ⟨-, same⟩
      -- The names of the other items fill the rest, which leaves no room.
      have lengths := congrArg List.length same
      have enough := length_le_flatMap_cons name further items
      rw [List.length_append, List.length_map] at lengths
      have nothing : further item = [] := List.eq_nil_of_length_eq_zero (by omega)
      rw [nothing, List.nil_append] at same
      exact ⟨nothing, same⟩
    · rintro ⟨nothing, same⟩
      exact ⟨rfl, by rw [nothing, List.nil_append, same]⟩

/-- A list is read as the declarations of its parameters with whatever the pieces of each default value
behind commas declare, so as the declarations alone exactly if all these pieces are silent. -/
theorem declarations_read_iff (params : List WrittenParameter) (given : params ≠ []) :
    parameterNames (writtenList params) = params.flatMap (fun p => p.name :: p.strayNames)
      ∧ (parameterNames (writtenList params) = params.map (·.name) ↔
        ∀ p ∈ params, ∀ piece ∈ p.piecesBehindCommas, IsSilent piece) := by
  have read : parameterNames (writtenList params)
      = params.flatMap fun p => p.name :: p.strayNames := by
    rw [parameterNames_eq, declaredIn_writtenList given, List.map_flatMap]
    simp only [List.map_cons, String.ofList_toList, WrittenParameter.strayNames]
  refine ⟨read, ?_⟩
  rw [read, flatMap_cons_eq_map_iff]
  simp only [WrittenParameter.strayNames, List.map_eq_nil_iff, declaredIn_eq_nil_iff]

/-- A parameter whose default value is an array with two items, and one behind it. -/
def arrayFirst : List WrittenParameter := [
  { declaration := "$a ", default? := some " array(1, 2)", filled := by decide, plain := by decide,
    unspread := by decide, noArrow := by decide },
  { declaration := "$b", default? := none, filled := by decide, plain := by decide,
    unspread := by decide, noArrow := by decide }]

/-- The header of a function admits the default value, but the list is read with a third parameter. -/
theorem arrayFirst_read :
    arrayFirst ≠ [] ∧ writtenList arrayFirst = "$a = array(1, 2), $b"
      ∧ (Pattern.parameters.matchAt? (Subject.ofString "$a = array(1, 2), $b") 0).map (·.stop) = some 20
      ∧ parameterNames (writtenList arrayFirst) = ["$a", "2)", "$b"] := by
  refine ⟨by decide, by decide, by decide, ?_⟩
  rw [(declarations_read_iff arrayFirst (by decide)).1]
  decide

end Surveyor
