import Surveyor.Proofs.Quality.Pieces

/-! # Where a name in use stands

Apart from calls and from tags of several words, a name in use is taken out of a stretch that one of
the patterns of use records. `useStretches` lists these stretches, and `fileReferences_cases` says
that every other name in use stands in one of them as a piece: what is recorded starts and ends where
a name may start and end (`edged_of_mem_useStretches`).
-/

namespace Surveyor

namespace Reference

open Pattern

variable {t : Text} {n : String} {m : Match} {i j a b : Nat} {caps between after : Captures}

/-! ## Both sides of a group -/

theorem edged_of_lead {lead body : Pattern} (leads : lead.consumes = true)
    (opens : lead.EndsOn opensPiece) (leadWay : (a, between) ∈ lead.ways (.ofText t) i caps)
    (bodyWay : (b, after) ∈ body.ways (.ofText t) a between)
    (closes : ∀ c d, t[b - 1]? = some c → isNameChar c = true → t[b]? = some d →
      closesPiece d = true) : Edged t a b := by
  have advances := lt_of_consumes leads leadWay
  have leadEnd := (le_of_mem_ways leadWay).2
  have bodyEnd := le_of_mem_ways bodyWay
  have stop : (Subject.ofText t).stop = t.size := rfl
  refine ⟨bodyEnd.1, by omega, ?_, closes⟩
  intro c positive previous
  obtain ⟨d, same, inClass⟩ := last_of_endsOn opens leadWay advances
  cases same.symm.trans previous
  exact inClass

theorem closes_of_trail {trail : Pattern} (trails : trail.consumes = true)
    (starts : trail.StartsOn closesPiece) (way : (j, after) ∈ trail.ways (.ofText t) b caps) :
    ∀ c d, t[b - 1]? = some c → isNameChar c = true → t[b]? = some d → closesPiece d = true := by
  intro _ d _ _ next
  obtain ⟨c, same, inClass⟩ := first_of_startsOn starts way (lt_of_consumes trails way)
  cases same.symm.trans next
  exact inClass

theorem closes_of_stopped {class_ : Char → Bool} (words : ∀ c, isWordChar c = true → class_ c = true)
    (stopped : (Subject.ofText t).has class_ b = false) :
    ∀ c d, t[b - 1]? = some c → isNameChar c = true → t[b]? = some d → closesPiece d = true := by
  intro _ d _ _ next
  cases inWord : isWordChar d with
  | false => simp [closesPiece, inWord]
  | true =>
    rw [Subject.has_ofText.mpr ⟨d, next, words d inWord⟩] at stopped
    cases stopped

/-- A group with something before it and something after it. -/
theorem edged_of_lead_trail {lead body trail : Pattern}
    (found : m ∈ (lead ++ (.group 1 body ++ trail)).findAll (.ofText t))
    (leads : lead.consumes = true) (opens : lead.EndsOn opensPiece)
    (trails : trail.consumes = true) (starts : trail.StartsOn closesPiece) (own : 1 ∉ trail.groups)
    (recorded : m.span? 1 = some (a, b)) : Edged t a b := by
  obtain ⟨_, _, _, span, leadWay, bodyWay, trailWay⟩ := (isMatch_of_mem_findAll found).group own
  cases span.symm.trans recorded
  exact edged_of_lead leads opens leadWay bodyWay (closes_of_trail trails starts trailWay)

/-- A group at the end of a pattern. -/
theorem edged_of_last {lead body : Pattern} (found : m ∈ (lead ++ .group 1 body).findAll (.ofText t))
    (leads : lead.consumes = true) (opens : lead.EndsOn opensPiece)
    (closes : ∀ {a b caps after}, body.Prefers (.ofText t) a caps b after →
      ∀ c d, t[b - 1]? = some c → isNameChar c = true → t[b]? = some d → closesPiece d = true)
    (recorded : m.span? 1 = some (a, b)) : Edged t a b := by
  obtain ⟨_, _, leadWay, taken⟩ := Prefers.append (prefers_of_mem_findAll found)
  obtain ⟨_, bodyTaken, captured⟩ := Prefers.group taken
  rw [Match.span?, captured] at recorded
  cases recorded
  exact edged_of_lead leads opens leadWay bodyTaken.mem (closes bodyTaken)

theorem endsOn_blanks : blanks.EndsOn opensPiece := fun _ => opensPiece_of_isBlank

theorem endsOn_blanks1 : blanks1.EndsOn opensPiece := fun _ => opensPiece_of_isBlank

theorem endsOn_char {c : Char} (opens : opensPiece c = true) : (char c).EndsOn opensPiece := by
  intro d same
  rw [← beq_iff_eq.mp same]
  exact opens

theorem startsOn_blanks : blanks.StartsOn closesPiece := fun _ => closesPiece_of_isBlank

theorem startsOn_blanks1 : blanks1.StartsOn closesPiece := fun _ => closesPiece_of_isBlank

theorem startsOn_char {c : Char} (closes : closesPiece c = true) :
    (char c).StartsOn closesPiece := by
  intro d same
  rw [← beq_iff_eq.mp same]
  exact closes

/-! ## Names that are recorded as they are -/

theorem edged_memberCall (found : m ∈ memberCallPattern.findAll (.ofText t))
    (recorded : m.span? 1 = some (a, b)) : Edged t a b := by
  have split : memberCallPattern = (words ["->", "?->", ".", "::"] ++ blanks)
      ++ (.group 1 name ++ (blanks ++ char '(')) := rfl
  rw [split] at found
  refine edged_of_lead_trail found (by decide) ?_ (by decide) ?_ (by decide) recorded
  · refine endsOn_append.mpr ⟨endsOn_blanks, .inr ?_⟩
    refine ⟨?_, ?_, ?_, ?_⟩ <;> (rintro c last d same; cases last; rw [← beq_iff_eq.mp same]; decide)
  · exact startsOn_append.mpr ⟨startsOn_blanks, .inr (startsOn_char (by decide))⟩

theorem edged_new (found : m ∈ newPattern.findAll (.ofText t))
    (recorded : m.span? 1 = some (a, b)) : Edged t a b := by
  have split : newPattern = (wordEdge ++ lit "new" ++ blanks1 ++ opt (char '\\')
      ++ .star (word ++ char '\\')) ++ .group 1 identifier := rfl
  rw [split] at found
  refine edged_of_last found (by decide) ?_ ?_ recorded
  · refine endsOn_append.mpr ⟨?_, .inr (endsOn_append.mpr ⟨?_, .inr ?_⟩)⟩
    · exact endsOn_append.mpr ⟨endsOn_char (by decide), .inl rfl⟩
    · exact ⟨endsOn_char (by decide), trivial⟩
    · exact endsOn_append.mpr ⟨endsOn_blanks1, .inl rfl⟩
  · intro _ _ _ _ taken
    obtain ⟨_, _, -, rest⟩ := Prefers.append taken
    exact closes_of_stopped (fun _ => isNameChar_of_isWordChar) (Prefers.greedy rest)

theorem edged_componentTag (found : m ∈ componentTagPattern.findAll (.ofText t))
    (recorded : m.span? 1 = some (a, b)) : Edged t a b := by
  have split : componentTagPattern = char '<'
      ++ (.group 1 (.one Char.isUpper ++ .greedy isNameChar 0)
        ++ .one fun c => isBlank c || c == '/' || c == '>' || c == '.') := rfl
  rw [split] at found
  refine edged_of_lead_trail found (by decide) (endsOn_char (by decide)) (by decide) ?_ (by decide)
    recorded
  intro c ends
  simp only [Bool.or_eq_true, beq_iff_eq] at ends
  rcases ends with ((blank | rfl) | rfl) | rfl
  · exact closesPiece_of_isBlank blank
  · decide
  · decide
  · decide

theorem isWordChar_of_isUpper {c : Char} (upper : c.isUpper = true) : isWordChar c = true := by
  apply isWordChar_of_letter
  change (c == '_' || (c.isUpper || c.isLower)) = true
  rw [upper, Bool.true_or, Bool.or_true]

theorem edged_typedParameter (found : m ∈ typedParameterPattern.findAll (.ofText t))
    (recorded : m.span? 1 = some (a, b)) : Edged t a b := by
  have split : typedParameterPattern = wordEdge ++ (.group 1 (.one Char.isUpper ++ .greedy isWordChar 0)
      ++ (blanks1 ++ opt (char '&') ++ opt (lit "...") ++ char '$' ++ word)) := rfl
  rw [split] at found
  obtain ⟨_, _, _, span, edgeWay, bodyWay, trailWay⟩ := (isMatch_of_mem_findAll found).group (by decide)
  cases span.symm.trans recorded
  obtain ⟨_, _, upperWay, -⟩ := mem_ways_append.mp bodyWay
  have upper := (mem_ways_one.mp upperWay).1
  have starts := Subject.has_lt_stop upper
  have bodyEnd := le_of_mem_ways bodyWay
  have stop : (Subject.ofText t).stop = t.size := rfl
  have closes := closes_of_trail (by decide) (startsOn_append.mpr ⟨startsOn_append.mpr
    ⟨startsOn_append.mpr ⟨startsOn_append.mpr ⟨startsOn_blanks1, .inl rfl⟩, .inl rfl⟩, .inl rfl⟩,
    .inl rfl⟩) trailWay
  refine ⟨bodyEnd.1, by omega, ?_, closes⟩
  -- At the edge before a capital there is no letter on the other side.
  obtain ⟨atEdge, same, -⟩ := mem_ways_where.mp edgeWay
  have inWord : (Subject.ofText t).has isWordChar m.start = true := by
    rw [← same]
    exact Subject.has_mono (fun _ => isWordChar_of_isUpper) upper
  rw [same]
  intro c positive previous
  rw [inWord, bne_iff_ne, ne_eq, Subject.hasBefore_iff] at atEdge
  cases letter : opensPiece c with
  | true => rfl
  | false =>
    have alsoWord := isWordChar_of_letter (opensPiece_eq_false.mp letter)
    exact absurd ⟨positive, Subject.has_ofText.mpr ⟨c, previous, alsoWord⟩⟩ atEdge

theorem staticPattern_eq :
    staticPattern = .group 1 (.one (fun c => c == '_' || c.isAlpha) ++ .greedy isWordChar 0)
      ++ (blanks ++ lit "::") := rfl

/-- With a letter before a class, the class is found from that letter on as well. -/
theorem staticPattern_ways_before {c : Char} (found : m ∈ staticPattern.findAll (.ofText t))
    (positive : 0 < m.start) (previous : t[m.start - 1]? = some c) (letter : opensPiece c = false) :
    staticPattern.ways (.ofText t) (m.start - 1) [] ≠ [] := by
  have matched := isMatch_of_mem_findAll found
  rw [IsMatch, staticPattern_eq, mem_ways_append] at matched
  obtain ⟨b, _, groupWay, trailWay⟩ := matched
  obtain ⟨_, bodyWay, rfl⟩ := mem_ways_group.mp groupWay
  obtain ⟨_, _, firstWay, othersWay⟩ := mem_ways_append.mp bodyWay
  obtain ⟨starts, rfl, rfl⟩ := mem_ways_one.mp firstWay
  obtain ⟨othersOrder, othersStand, rfl⟩ := mem_ways_greedy.mp othersWay
  apply List.ne_nil_of_mem (a := (m.stop, (1, m.start - 1, b) :: []))
  rw [staticPattern_eq, mem_ways_append]
  refine ⟨b, [(1, m.start - 1, b)], mem_ways_group.mpr ⟨[], ?_, rfl⟩, ?_⟩
  · refine mem_ways_append.mpr ⟨m.start, [], mem_ways_one.mpr ⟨?_, by omega, rfl⟩, ?_⟩
    · exact Subject.has_ofText.mpr ⟨c, previous, opensPiece_eq_false.mp letter⟩
    · refine mem_ways_greedy.mpr ⟨by omega, ?_, rfl⟩
      intro k from_ inside
      rcases Nat.eq_or_lt_of_le from_ with rfl | later
      · exact Subject.has_mono (fun _ => isWordChar_of_letter) starts
      · exact othersStand k later inside
  · obtain ⟨_, _, blanksWay, colonsWay⟩ := mem_ways_append.mp trailWay
    obtain ⟨blanksOrder, blanksStand, rfl⟩ := mem_ways_greedy.mp blanksWay
    obtain ⟨ends, -⟩ := mem_ways_literal.mp colonsWay
    exact mem_ways_append.mpr ⟨_, _, mem_ways_greedy.mpr ⟨blanksOrder, blanksStand, rfl⟩,
      mem_ways_literal.mpr ⟨ends, rfl⟩⟩

theorem endsOn_staticPattern : staticPattern.EndsOn (· == ':') := by
  refine endsOn_append.mpr ⟨?_, .inl rfl⟩
  rintro c last d same
  cases last
  rw [← beq_iff_eq.mp same]
  decide

/-- A class before two colons starts as far left as its letters go. -/
theorem edged_static (found : m ∈ staticPattern.findAll (.ofText t))
    (recorded : m.span? 1 = some (a, b)) : Edged t a b := by
  have matched := isMatch_of_mem_findAll found
  rw [IsMatch, staticPattern_eq, mem_ways_append] at matched
  obtain ⟨_, _, groupWay, trailWay⟩ := matched
  obtain ⟨_, bodyWay, rfl⟩ := mem_ways_group.mp groupWay
  rw [Match.span?, lookup_of_not_mem_groups (by decide) trailWay] at recorded
  cases recorded
  obtain ⟨_, _, firstWay, -⟩ := mem_ways_append.mp bodyWay
  have inText := Subject.has_lt_stop (mem_ways_one.mp firstWay).1
  have bodyEnd := le_of_mem_ways bodyWay
  have stop : (Subject.ofText t).stop = t.size := rfl
  have colons : (blanks ++ lit "::").StartsOn closesPiece := by
    refine startsOn_append.mpr ⟨startsOn_blanks, .inr ?_⟩
    rintro c first d same
    cases first
    rw [← beq_iff_eq.mp same]
    decide
  refine ⟨bodyEnd.1, by omega, ?_, closes_of_trail (by decide) colons trailWay⟩
  intro c positive previous
  cases letter : opensPiece c with
  | true => rfl
  | false =>
    obtain ⟨earlier, foundEarlier, adjacent⟩ := ends_before rfl found positive (Nat.le_of_lt inText)
      (staticPattern_ways_before found positive previous letter)
    -- So a match ends right before this one, on a colon and not on the letter.
    obtain ⟨d, same, isColon⟩ := last_of_endsOn endsOn_staticPattern
      (isMatch_of_mem_findAll foundEarlier) (lt_of_consumes rfl (isMatch_of_mem_findAll foundEarlier))
    rw [adjacent] at same
    cases same.symm.trans previous
    rw [beq_iff_eq.mp isColon] at letter
    cases letter

/-! ## Qualified names -/

/-- A qualified name goes on as far as its characters do. -/
theorem longName_stops (taken : longName.Prefers (.ofText t) a caps b after) :
    (Subject.ofText t).has (fun c => isNameChar c || c == '.' || c == '\\') b = false := by
  obtain ⟨_, _, -, rest⟩ := Prefers.append taken
  exact Prefers.greedy rest

theorem edged_inheritance (found : m ∈ inheritancePattern.findAll (.ofText t))
    (recorded : m.span? 1 = some (a, b)) : Edged t a b := by
  have split : inheritancePattern
      = (wordEdge ++ words ["extends", "implements", "instanceof"] ++ blanks1)
        ++ .group 1 (longName ++ .star (blanks ++ char ',' ++ blanks ++ longName)) := rfl
  rw [split] at found
  refine edged_of_last found (by decide) ?_ ?_ recorded
  · exact endsOn_append.mpr ⟨endsOn_blanks1, .inl rfl⟩
  · intro a b _ _ taken
    obtain ⟨first, _, firstTaken, rest⟩ := Prefers.append_of_total (by
      intro k between empty
      have done : (k, between) ∈ (Pattern.star (blanks ++ char ',' ++ blanks ++ longName)).ways
          (.ofText t) k between := mem_ways_star.mpr .done
      rw [empty] at done
      cases done) taken
    -- Each name of the list is taken as far as it goes, so the last one is too.
    have stops : ∀ {k j : Nat} {caps after : Captures},
        Repeats (fun i caps j after =>
          (blanks ++ char ',' ++ blanks ++ longName).Prefers (.ofText t) i caps j after)
          k caps j after →
        (Subject.ofText t).has (fun c => isNameChar c || c == '.' || c == '\\') k = false →
        (Subject.ofText t).has (fun c => isNameChar c || c == '.' || c == '\\') j = false := by
      intro k j caps after repeats
      induction repeats with
      | done => exact id
      | more once _ _ restHypothesis =>
        intro _
        obtain ⟨_, _, -, last⟩ := Prefers.append once
        exact restHypothesis (longName_stops last)
    have repeated := Prefers.star (fun way => lt_of_consumes rfl way) rest
    refine closes_of_stopped (fun c inWord => ?_) (stops repeated (longName_stops firstTaken))
    rw [isNameChar_of_isWordChar inWord]
    rfl

theorem edged_annotation (found : m ∈ annotationPattern.findAll (.ofText t))
    (recorded : m.span? 1 = some (a, b)) : Edged t a b := by
  have split : annotationPattern = (char ':' ++ blanks ++ opt (char '?') ++ blanks)
      ++ .group 1 (opt (char '\\') ++ .one (fun c => c == '_' || c.isAlpha) ++ .greedy isPathChar 0) :=
    rfl
  rw [split] at found
  refine edged_of_last found (by decide) ?_ ?_ recorded
  · refine endsOn_append.mpr ⟨endsOn_blanks, .inr (endsOn_append.mpr ⟨?_, .inr ?_⟩)⟩
    · exact ⟨endsOn_char (by decide), trivial⟩
    · exact endsOn_append.mpr ⟨endsOn_blanks, .inr (endsOn_char (by decide))⟩
  · intro _ _ _ _ taken
    obtain ⟨_, _, -, rest⟩ := Prefers.append taken
    exact closes_of_stopped (fun _ inWord => by simp [isPathChar, inWord]) (Prefers.greedy rest)

/-! ## Clauses -/

theorem edged_importClause (found : m ∈ importClausePattern.findAll (.ofText t))
    (recorded : m.span? 1 = some (a, b)) : Edged t a b := by
  have split : importClausePattern
      = (wordEdge ++ lit "import" ++ blanks1 ++ opt (lit "type" ++ blanks1))
        ++ (.group 1 (.lazy Script.isClauseChar 1) ++ (blanks1 ++ lit "from" ++ wordEdge)) := rfl
  rw [split] at found
  refine edged_of_lead_trail found (by decide) ?_ (by decide) ?_ (by decide) recorded
  · refine endsOn_append.mpr ⟨⟨?_, trivial⟩, .inr (endsOn_append.mpr ⟨endsOn_blanks1, .inl rfl⟩)⟩
    exact endsOn_append.mpr ⟨endsOn_blanks1, .inl rfl⟩
  · exact startsOn_append.mpr
      ⟨startsOn_append.mpr ⟨startsOn_blanks1, .inl rfl⟩, .inl (by decide)⟩

theorem edged_requireTarget (found : m ∈ requireTargetPattern.findAll (.ofText t))
    (recorded : m.span? 1 = some (a, b)) : Edged t a b := by
  have split : requireTargetPattern = (wordEdge ++ words ["const", "let", "var"] ++ blanks1)
      ++ (.group 1 bindingTarget ++ (blanks ++ (char '=' ++ blanks ++ lit "require" ++ wordEdge))) := rfl
  rw [split] at found
  refine edged_of_lead_trail found (by decide) ?_ (by decide) ?_ (by decide) recorded
  · exact endsOn_append.mpr ⟨endsOn_blanks1, .inl rfl⟩
  · refine startsOn_append.mpr ⟨startsOn_blanks, .inr ?_⟩
    exact ⟨startsOn_char (by decide), .inl rfl⟩

theorem edged_exportList (found : m ∈ exportListPattern.findAll (.ofText t))
    (recorded : m.span? 1 = some (a, b)) : Edged t a b := by
  have split : exportListPattern
      = (wordEdge ++ lit "export" ++ blanks1 ++ opt (lit "type" ++ blanks1) ++ char '{')
        ++ (.group 1 (.greedy (· != '}') 0) ++ char '}') := rfl
  rw [split] at found
  exact edged_of_lead_trail found (by decide)
    (endsOn_append.mpr ⟨endsOn_char (by decide), .inl rfl⟩) (by decide) (startsOn_char (by decide))
    (by decide) recorded

theorem edged_moduleExports (found : m ∈ Reference.moduleExportsPattern.findAll (.ofText t))
    (recorded : m.span? 1 = some (a, b)) : Edged t a b := by
  have split : Reference.moduleExportsPattern
      = (wordEdge ++ lit "module.exports" ++ blanks ++ char '=' ++ blanks)
        ++ .group 1 bindingTarget := rfl
  rw [split] at found
  refine edged_of_last found (by decide) ?_ ?_ recorded
  · exact endsOn_append.mpr ⟨endsOn_blanks,
      .inr (endsOn_append.mpr ⟨endsOn_char (by decide), .inl rfl⟩)⟩
  · intro _ b _ _ taken
    rcases Prefers.alt taken with braced | named
    · -- A binding in braces does not end on a name.
      intro c d last inName
      obtain ⟨_, _, -, closing⟩ := mem_ways_append.mp braced.mem
      obtain ⟨here, ends, -⟩ := getElem?_of_mem_char closing
      rw [ends, Nat.add_sub_cancel] at last
      cases here.symm.trans last
      cases inName
    · exact closes_of_stopped (fun _ => isNameChar_of_isWordChar) (Prefers.greedy named)

/-! ## Imported qualified names -/

def useLead : Pattern :=
  wordEdge ++ lit "use" ++ blanks1 ++ opt (lit "function" ++ blanks1 <|> lit "const" ++ blanks1)
    ++ opt (char '\\')

def useAlias : Pattern := blanks1 ++ lit "as" ++ blanks1 ++ .group 2 word

theorem usePattern_eq : usePattern = useLead ++ (.group 1 (.greedy isPathChar 1) ++ opt useAlias) := rfl

theorem endsOn_useLead : useLead.EndsOn opensPiece := by
  refine endsOn_append.mpr ⟨⟨endsOn_char (by decide), trivial⟩, .inr (endsOn_append.mpr ⟨?_, .inr ?_⟩)⟩
  · refine ⟨⟨?_, ?_⟩, trivial⟩
    · exact endsOn_append.mpr ⟨endsOn_blanks1, .inl rfl⟩
    · exact endsOn_append.mpr ⟨endsOn_blanks1, .inl rfl⟩
  · exact endsOn_append.mpr ⟨endsOn_blanks1, .inl rfl⟩

theorem edged_use (found : m ∈ usePattern.findAll (.ofText t)) :
    ∃ start stop, Edged t start stop
      ∧ (m.captures = [(1, start, stop)]
        ∨ ∃ start' stop', Edged t start' stop'
          ∧ m.captures = [(2, start', stop'), (1, start, stop)]) := by
  have taken := prefers_of_mem_findAll found
  rw [usePattern_eq] at taken
  obtain ⟨start, _, leadWay, rest⟩ := Prefers.append taken
  obtain rfl := captures_of_plain (by decide) leadWay
  -- The alias can be left out, so the path before it is taken as far as it goes.
  have optional : ∀ k between, (opt useAlias).ways (.ofText t) k between ≠ [] := by
    intro k between empty
    have leftOut : (k, between) ∈ (opt useAlias).ways (.ofText t) k between :=
      mem_ways_opt.mpr (.inr ⟨rfl, rfl⟩)
    rw [empty] at leftOut
    cases leftOut
  obtain ⟨stop, _, pathTaken, aliasTaken⟩ := Prefers.append_of_total optional rest
  obtain ⟨_, pathRun, rfl⟩ := Prefers.group pathTaken
  obtain ⟨-, -, rfl⟩ := mem_ways_greedy.mp pathRun.mem
  refine ⟨start, stop, ?_, ?_⟩
  · exact edged_of_lead (by decide) endsOn_useLead leadWay pathRun.mem
      (closes_of_stopped (fun _ inWord => by simp [isPathChar, inWord]) (Prefers.greedy pathRun))
  · rcases Prefers.opt aliasTaken with written | ⟨-, leftOut⟩
    · obtain ⟨_, _, asWay, wordTaken⟩ := Prefers.append written
      obtain rfl := captures_of_plain (by decide) asWay
      obtain ⟨_, wordRun, captured⟩ := Prefers.group wordTaken
      obtain ⟨-, -, rfl⟩ := mem_ways_greedy.mp wordRun.mem
      refine .inr ⟨_, _, ?_, captured⟩
      exact edged_of_lead (by decide) (endsOn_append.mpr ⟨endsOn_blanks1, .inl rfl⟩) asWay wordRun.mem
        (closes_of_stopped (fun _ => id) (Prefers.greedy wordRun))
    · exact .inl leftOut

/-! ## All stretches -/

def namingPatterns : List Pattern :=
  [memberCallPattern, newPattern, staticPattern, typedParameterPattern, componentTagPattern,
    inheritancePattern, annotationPattern, importClausePattern, requireTargetPattern,
    exportListPattern, Reference.moduleExportsPattern, usePattern]

def useStretches (t : Text) : List (Nat × Nat) :=
  (namingPatterns.flatMap fun p => (p.findAll (.ofText t)).filterMap (·.span? 1))
    ++ (usePattern.findAll (.ofText t)).filterMap (·.span? 2)

theorem mem_useStretches {p : Pattern} (known : p ∈ namingPatterns)
    (found : m ∈ p.findAll (.ofText t)) {stretch : Nat × Nat} (recorded : m.span? 1 = some stretch) :
    stretch ∈ useStretches t :=
  List.mem_append.mpr (.inl (List.mem_flatMap.mpr
    ⟨p, known, List.mem_filterMap.mpr ⟨m, found, recorded⟩⟩))

theorem edged_of_mem_useStretches {stretch : Nat × Nat} (member : stretch ∈ useStretches t) :
    Edged t stretch.1 stretch.2 := by
  simp only [useStretches, List.mem_append, List.mem_flatMap, List.mem_filterMap] at member
  rcases member with ⟨p, known, m, found, recorded⟩ | ⟨m, found, recorded⟩
  · simp only [namingPatterns, List.mem_cons, List.not_mem_nil, or_false] at known
    rcases known with rfl | rfl | rfl | rfl | rfl | rfl | rfl | rfl | rfl | rfl | rfl | rfl
    · exact edged_memberCall found recorded
    · exact edged_new found recorded
    · exact edged_static found recorded
    · exact edged_typedParameter found recorded
    · exact edged_componentTag found recorded
    · exact edged_inheritance found recorded
    · exact edged_annotation found recorded
    · exact edged_importClause found recorded
    · exact edged_requireTarget found recorded
    · exact edged_exportList found recorded
    · exact edged_moduleExports found recorded
    · obtain ⟨start, stop, edged, alone | ⟨_, _, -, both⟩⟩ := edged_use found
      · rw [Match.span?, alone] at recorded
        cases recorded
        exact edged
      · rw [Match.span?, both] at recorded
        cases recorded
        exact edged
  · obtain ⟨start, stop, edged, alone | ⟨_, _, aliasEdged, both⟩⟩ := edged_use found
    · rw [Match.span?, alone] at recorded
      cases recorded
    · rw [Match.span?, both] at recorded
      cases recorded
      exact aliasEdged

/-- The name stands as a piece in a stretch that names something in use. -/
def StandsInUse (t : Text) (n : String) (i : Nat) : Prop :=
  PieceAt t n i ∧ ∃ stretch ∈ useStretches t, stretch.1 ≤ i ∧ i + n.length ≤ stretch.2

/-- A piece of what a pattern of use records stands in use. -/
theorem standsInUse_of_isPiece {stretch : Nat × Nat} (member : stretch ∈ useStretches t)
    (names : ∀ c ∈ n.toList, isNameChar c = true) (nonempty : 0 < n.length) {offset : Nat}
    (piece : IsPiece n.toList (t.slice stretch.1 stretch.2).toList offset) :
    ∃ i, StandsInUse t n i := by
  obtain ⟨pieceAt, fits⟩ :=
    pieceAt_of_isPiece (edged_of_mem_useStretches member) names nonempty piece
  exact ⟨stretch.1 + offset, pieceAt, stretch, member, Nat.le_add_right _ _, fits⟩

theorem standsInUse_of_namesOf {p : Pattern} (known : p ∈ namingPatterns) {recorded : String}
    (member : recorded ∈ namesOf t p) (names : ∀ c ∈ n.toList, isNameChar c = true)
    (nonempty : 0 < n.length) {offset : Nat} (piece : IsPiece n.toList recorded.toList offset) :
    ∃ i, StandsInUse t n i := by
  obtain ⟨m, found, rfl⟩ := List.mem_map.mp member
  cases span : m.span? 1 with
  | none =>
    -- A group that took no part leaves nothing to be a piece of.
    rw [Match.groupText, Match.group?, span] at piece
    obtain ⟨pre, post, whole, -⟩ := piece
    have lengths := congrArg List.length whole
    simp only [Option.map_none, Option.getD_none, String.toList_empty, List.length_nil,
      List.length_append, String.length_toList] at lengths
    omega
  | some stretch =>
    rw [Match.groupText, Match.group?, span] at piece
    exact standsInUse_of_isPiece (mem_useStretches known found span) names nonempty piece

/-- A name in use is called, is the name of a tag of several words, or stands in a stretch that names
something in use. -/
theorem fileReferences_cases (names : ∀ c ∈ n.toList, isNameChar c = true) (nonempty : 0 < n.length)
    (used : n ∈ fileReferences t) :
    n ∈ calledNames t ∨ (∃ tag ∈ namesOf t kebabTagPattern, componentName tag = n)
      ∨ ∃ i, StandsInUse t n i := by
  simp only [fileReferences, List.mem_filter, List.mem_append, List.mem_flatMap, List.mem_map] at used
  -- In the order in which the names are gathered: calls, names as they stand, lists of superclasses,
  -- annotations, tags of several words, clauses of names, imports with their aliases.
  obtain ⟨((((((called | ⟨p, known, direct⟩) | ⟨list, inList, part, inParts, rfl⟩)
    | ⟨written, inWritten, rfl⟩) | tag) | ⟨p, known, clause, inClauses, inClause⟩)
    | ⟨m, found, imported⟩), -⟩ := used
  · exact .inl called
  · refine .inr (.inr (standsInUse_of_namesOf ?_ direct names nonempty (.refl _)))
    simp only [List.mem_cons, List.not_mem_nil, or_false] at known
    simp only [namingPatterns, List.mem_cons]
    grind
  · obtain ⟨_, inPart⟩ := isPiece_lastSegment part
    obtain ⟨_, ofPart⟩ := isPiece_of_mem_split (by decide) (by decide) inParts
    exact .inr (.inr (standsInUse_of_namesOf (by simp [namingPatterns]) inList names nonempty
      (inPart.trans ofPart)))
  · obtain ⟨_, segment⟩ := isPiece_lastSegment written
    exact .inr (.inr (standsInUse_of_namesOf (by simp [namingPatterns]) inWritten names nonempty segment))
  · exact .inr (.inl tag)
  · obtain ⟨_, piece⟩ := isPiece_of_mem_identifiers inClause
    refine .inr (.inr (standsInUse_of_namesOf ?_ inClauses names nonempty piece))
    simp only [List.mem_cons, List.not_mem_nil, or_false] at known
    simp only [namingPatterns, List.mem_cons]
    grind
  · rcases List.mem_cons.mp imported with rfl | alias_
    · obtain ⟨_, segment⟩ := isPiece_lastSegment (m.groupText t 1)
      exact .inr (.inr (standsInUse_of_namesOf (p := usePattern) (by simp [namingPatterns])
        (List.mem_map.mpr ⟨m, found, rfl⟩) names nonempty segment))
    · obtain ⟨stretch, span, rfl⟩ := Option.map_eq_some_iff.mp (Option.mem_toList.mp alias_)
      have inStretches : stretch ∈ useStretches t :=
        List.mem_append.mpr (.inr (List.mem_filterMap.mpr ⟨m, found, span⟩))
      exact .inr (.inr (standsInUse_of_isPiece inStretches names nonempty (.refl _)))

end Reference

end Surveyor
