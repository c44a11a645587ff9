import Surveyor.Proofs.Source.LocalNames
import Surveyor.Source.Script.Declarations

/-! # Which specifiers of an import are names

No specifier of an import is empty. A specifier that does not come out of braces is a name; those out
of braces are names exactly if the elements between the braces are plain (`specifiers_are_names_iff`).
-/

namespace Surveyor

open Pattern Text

variable {t : Text} {i j a b : Nat}

/-! ## Braces -/

/-- The first opening brace of a stretch, and the first closing brace behind it. -/
structure FirstBraces (t : Text) (i j a b : Nat) : Prop where
  from_ : i ≤ a
  before : Stands t (· != '{') i a
  opens : t[a]? = some '{'
  order : a < b
  between : Stands t (· != '}') (a + 1) b
  closes : t[b]? = some '}'
  within : b < j

theorem FirstBraces.unique {j' a' b' : Nat} (braces : FirstBraces t i j a b)
    (braces' : FirstBraces t i j' a' b') : a = a' ∧ b = b' := by
  obtain rfl : a = a' := Nat.le_antisymm
    (braces.before.le_of_not braces'.from_ braces'.opens (by decide))
    (braces'.before.le_of_not braces.from_ braces.opens (by decide))
  exact ⟨rfl, Nat.le_antisymm
    (braces.between.le_of_not braces'.order braces'.closes (by decide))
    (braces'.between.le_of_not braces.order braces.closes (by decide))⟩

theorem mem_ways_bracedNames {after : Captures} :
    (j, after) ∈ Script.bracedNames.ways (.ofText t) a [] ↔
      ∃ b, t[a]? = some '{' ∧ a < b ∧ Stands t (· != '}') (a + 1) b ∧ t[b]? = some '}'
        ∧ j = b + 1 ∧ after = [(1, a + 1, b)] := by
  simp only [Script.bracedNames, mem_ways_append, mem_ways_char_ofText, mem_ways_group,
    mem_ways_greedy_ofText, Nat.add_zero]
  constructor
  · rintro ⟨b, _, ⟨_, _, ⟨opens, rfl, rfl⟩, _, ⟨order, between, rfl⟩, rfl⟩, closes, rfl, rfl⟩
    exact ⟨b, opens, order, between, closes, rfl, rfl⟩
  · rintro ⟨b, opens, order, between, closes, rfl, rfl⟩
    exact ⟨b, _, ⟨_, _, ⟨opens, rfl, rfl⟩, _, ⟨order, between, rfl⟩, rfl⟩, closes, rfl, rfl⟩

/-- Up to a character outside of the class there is a first one outside of it. -/
theorem exists_stands {p : Char → Bool} {c : Char} (order : i ≤ j) (here : t[j]? = some c)
    (outside : p c = false) :
    ∃ k d, i ≤ k ∧ k ≤ j ∧ Stands t p i k ∧ t[k]? = some d ∧ p d = false := by
  obtain ⟨n, rfl⟩ := Nat.exists_eq_add_of_le order
  induction n generalizing i with
  | zero => exact ⟨i, c, Nat.le_refl i, order, .empty, here, outside⟩
  | succ n inductionHypothesis =>
    obtain ⟨inText, -⟩ := Array.getElem?_eq_some_iff.mp here
    have first : t[i]? = some t[i] := Array.getElem?_eq_getElem (by omega)
    cases inClass : p t[i] with
    | false => exact ⟨i, _, Nat.le_refl i, order, .empty, first, inClass⟩
    | true =>
      rw [show i + (n + 1) = i + 1 + n by omega] at here ⊢
      obtain ⟨k, d, from_, upTo, stands, next, other⟩ := inductionHypothesis (by omega) here
      exact ⟨k, d, by omega, upTo, Stands.append (.one first inClass) stands, next, other⟩

/-- An opening brace that a closing one follows is matched. -/
theorem exists_matchAt?_bracedNames (opens : t[a]? = some '{') (order : a < b)
    (closes : t[b]? = some '}') :
    ∃ m, Script.bracedNames.matchAt? (.ofText t) a = some m := by
  obtain ⟨k, d, from_, -, between, here, brace⟩ :=
    exists_stands (p := (· != '}')) order closes (by decide)
  rw [bne_eq_false_iff_eq] at brace
  rw [brace] at here
  exact exists_matchAt? (mem_ways_bracedNames.mpr ⟨k, opens, from_, between, here, rfl, rfl⟩)

/-- The braces that are found in a text are the first ones. -/
theorem firstBraces_of_find? {m : Match} (found : Script.bracedNames.find? (.ofText t) = some m) :
    ∃ b, FirstBraces t 0 t.size m.start b ∧ m.groupText t 1 = t.slice (m.start + 1) b := by
  obtain ⟨-, -, matched, none_⟩ := findFrom?_eq_some.mp found
  obtain ⟨-, isMatch⟩ := isMatch_of_matchAt? matched
  obtain ⟨b, opens, order, between, closes, -, captured⟩ := mem_ways_bracedNames.mp isMatch
  obtain ⟨inText, -⟩ := Array.getElem?_eq_some_iff.mp closes
  refine ⟨b, ⟨Nat.zero_le _, ?_, opens, order, between, closes, inText⟩, ?_⟩
  · intro k _ before
    have here : t[k]? = some t[k] := Array.getElem?_eq_getElem (by omega)
    refine ⟨_, here, ?_⟩
    rw [bne_iff_ne]
    intro brace
    -- The braces would have been found at the earlier opening brace already.
    rw [brace] at here
    obtain ⟨_, earlier⟩ := exists_matchAt?_bracedNames here (Nat.lt_trans before order) closes
    rw [none_ k (Nat.zero_le k) before] at earlier
    cases earlier
  · exact Match.groupText_of_lookup (by rw [captured]; rfl)

theorem exists_find?_of_firstBraces (braces : FirstBraces t 0 t.size a b) :
    ∃ m, Script.bracedNames.find? (.ofText t) = some m ∧ m.groupText t 1 = t.slice (a + 1) b := by
  have some_ : (Script.bracedNames.findFrom? (.ofText t) (t.size + 1) 0).isSome = true := by
    obtain ⟨m, matched⟩ := exists_matchAt?_bracedNames braces.opens braces.order braces.closes
    obtain ⟨inText, -⟩ := Array.getElem?_eq_some_iff.mp braces.opens
    refine findFrom?_isSome.mpr ⟨a, Nat.zero_le a, by omega, ?_⟩
    rw [ne_eq, ← matchAt?_eq_none, matched]
    exact Option.some_ne_none m
  obtain ⟨m, found⟩ := Option.isSome_iff_exists.mp some_
  obtain ⟨b', first, text⟩ := firstBraces_of_find? found
  obtain ⟨rfl, rfl⟩ := first.unique braces
  exact ⟨m, found, text⟩

/-! ## The specifiers of a clause -/

/-- The specifier is no empty string, and all its characters are those of names. -/
def IsName (n : String) : Prop := n ≠ "" ∧ ∀ c ∈ n.toList, isNameChar c = true

def namedIn (clause : String) : List String :=
  match Script.bracedNames.find? (.ofText (Text.ofString clause)) with
  | some m => ((Text.split ',' (m.groupText (Text.ofString clause) 1)).map Script.localName).filter
      (!·.isEmpty)
  | none => []

theorem isName_slice (order : i < j) (run : Stands t isNameChar i j) : IsName (t.slice i j) := by
  obtain ⟨_, last, -⟩ := run (j - 1) (by omega) (by omega)
  obtain ⟨inText, -⟩ := Array.getElem?_eq_some_iff.mp last
  have length := length_slice (t := t) (a := i) (show j ≤ t.size by omega)
  constructor
  · intro empty
    rw [empty] at length
    simp only [String.toList_empty, List.length_nil] at length
    omega
  · intro c member
    obtain ⟨k, inSlice, rfl⟩ := List.getElem_of_mem member
    have inRun : k < j - i := by rwa [← length]
    have here := getElem?_slice (t := t) (show j ≤ t.size by omega) (show i + k < j by omega)
    obtain ⟨d, there, inName⟩ := run (i + k) (by omega) (by omega)
    rw [there, List.getElem?_eq_getElem inSlice] at here
    rw [Option.some.inj here]
    exact inName

theorem isName_namespaceImport {token : String} {m : Match}
    (matched : Script.namespaceImport.matchAt? (.ofText (Text.ofString token)) 0 = some m) :
    IsName (m.groupText (Text.ofString token) 1) := by
  have isMatch := (isMatch_of_matchAt? matched).2
  simp only [IsMatch, Script.namespaceImport, mem_ways_append, mem_ways_group] at isMatch
  obtain ⟨first, between, -, inner, nameWay, captured⟩ := isMatch
  obtain ⟨order, run, -⟩ := stands_of_mem_greedy nameWay
  rw [Match.groupText_of_lookup (by rw [captured]; rfl)]
  exact isName_slice order run

/-- A token outside of the braces adds names and takes nothing away. -/
theorem mem_addToken (specifiers : List String) (bound : Option String) (token n : String) :
    (n ∈ specifiers → n ∈ (Script.addToken specifiers bound token).1)
      ∧ (n ∈ (Script.addToken specifiers bound token).1 → n ∈ specifiers ∨ IsName n) := by
  rw [Script.addToken]
  -- An empty token, a namespace, a single name, and any other token.
  split
  · exact ⟨id, .inl⟩
  · next filled =>
    split
    · next m matched =>
      have isName := isName_namespaceImport matched
      simp only [List.mem_append, List.mem_singleton]
      refine ⟨.inl, ?_⟩
      rintro (earlier | rfl)
      · exact .inl earlier
      · exact .inr isName
    · split
      · next names =>
        refine ⟨List.mem_cons_of_mem token, fun member => ?_⟩
        rcases List.mem_cons.mp member with rfl | earlier
        · refine .inr ⟨?_, ?_⟩
          · rintro rfl
            exact filled rfl
          · simpa [Text.ofString] using names
        · exact .inl earlier
      · exact ⟨id, .inl⟩

theorem mem_foldl_addToken (tokens : List String) (specifiers : List String) (bound : Option String)
    (n : String) :
    let added := (tokens.foldl (fun (specifiers, bound) token => Script.addToken specifiers bound token)
      (specifiers, bound)).1
    (n ∈ specifiers → n ∈ added) ∧ (n ∈ added → n ∈ specifiers ∨ IsName n) := by
  induction tokens generalizing specifiers bound with
  | nil => exact ⟨id, .inl⟩
  | cons token rest inductionHypothesis =>
    obtain ⟨kept, added⟩ := mem_addToken specifiers bound token n
    obtain ⟨keptLater, addedLater⟩ := inductionHypothesis (Script.addToken specifiers bound token).1
      (Script.addToken specifiers bound token).2
    refine ⟨fun member => keptLater (kept member), fun member => ?_⟩
    rcases addedLater member with earlier | isName
    · exact added earlier
    · exact .inr isName

/-- What a clause binds outside of its braces are names. -/
theorem mem_clauseBindings (clause n : String) :
    (n ∈ namedIn clause → n ∈ (Script.clauseBindings clause).1)
      ∧ (n ∈ (Script.clauseBindings clause).1 → n ∈ namedIn clause ∨ IsName n) := by
  rw [Script.clauseBindings, namedIn]
  cases Script.bracedNames.find? (.ofText (Text.ofString clause)) with
  | none => exact mem_foldl_addToken _ _ _ n
  | some m => exact mem_foldl_addToken _ _ _ n

theorem mem_namedIn {clause n : String} :
    n ∈ namedIn clause ↔
      n ≠ "" ∧ ∃ a b, FirstBraces (Text.ofString clause) 0 (Text.ofString clause).size a b
        ∧ ∃ part ∈ Text.split ',' ((Text.ofString clause).slice (a + 1) b),
          Script.localName part = n := by
  rw [namedIn]
  constructor
  · intro member
    split at member
    · next m found =>
      obtain ⟨b, braces, text⟩ := firstBraces_of_find? found
      simp only [List.mem_filter, List.mem_map, text] at member
      obtain ⟨⟨part, inBraces, named⟩, filled⟩ := member
      exact ⟨by simpa using filled, m.start, b, braces, part, inBraces, named⟩
    · cases member
  · rintro ⟨filled, a, b, braces, part, inBraces, named⟩
    obtain ⟨m, found, text⟩ := exists_find?_of_firstBraces braces
    simp only [found, text, List.mem_filter, List.mem_map]
    exact ⟨⟨part, inBraces, named⟩, by simpa using filled⟩

/-- The specifiers of a clause are names exactly if the elements of its braces are plain. -/
theorem clauseBindings_iff (clause : String) :
    (∀ n ∈ (Script.clauseBindings clause).1, n ≠ "")
      ∧ ((∀ n ∈ (Script.clauseBindings clause).1, ∀ c ∈ n.toList, isNameChar c = true) ↔
        ∀ a b, FirstBraces (Text.ofString clause) 0 (Text.ofString clause).size a b →
          ∀ part ∈ Text.split ',' ((Text.ofString clause).slice (a + 1) b), PlainClause part) := by
  have bindings := mem_clauseBindings clause
  refine ⟨fun n member => ?_, ?_⟩
  · rcases (bindings n).2 member with named | isName
    · exact (mem_namedIn.mp named).1
    · exact isName.1
  · constructor
    · intro names a b braces part inBraces
      refine (localName_iff part).mp fun c member => ?_
      have filled : Script.localName part ≠ "" := by
        intro empty
        rw [empty] at member
        cases member
      have named := mem_namedIn.mpr ⟨filled, a, b, braces, part, inBraces, rfl⟩
      exact names _ ((bindings _).1 named) c member
    · intro plain n member
      rcases (bindings n).2 member with named | isName
      · obtain ⟨-, a, b, braces, part, inBraces, rfl⟩ := mem_namedIn.mp named
        exact (localName_iff part).mpr (plain a b braces part inBraces)
      · exact isName.2

/-! ## The braces of an import -/

/-- The braces of an import: the first ones in it. They start before the first quotation mark and, in
an import clause, end before it as well. -/
structure ImportBraces (t : Text) (i : Import) (a b : Nat) : Prop where
  first : FirstBraces t i.start i.stop a b
  unquoted : Stands t (!isQuote ·) i.start a
  inClause : i.form = .es6 → Stands t (!isQuote ·) a b

/-- The element binds a name or nothing, according to the form of its import. -/
def PlainElement (form : ImportForm) (part : String) : Prop :=
  match form with
  | .es6 => PlainClause part
  | _ => PlainTarget part

/-- An import without a brace before its first quotation mark has no braces. -/
theorem no_importBraces {i : Import} {quote : Nat} (from_ : i.start ≤ quote)
    (lead : Stands t (· != '{') i.start quote) (quoted : Holds t isQuote quote) :
    ¬ImportBraces t i a b := by
  intro braces
  obtain ⟨c, here, isMark⟩ := quoted
  have first : quote ≤ a := lead.le_of_not braces.first.from_ braces.first.opens (by decide)
  have second : a ≤ quote := braces.unquoted.le_of_not from_ here (by simp [isMark])
  obtain rfl : a = quote := Nat.le_antisymm second first
  cases here.symm.trans braces.first.opens
  exact absurd isMark (by decide)

/-- No specifier of the import is empty, and all of them are names exactly if the elements of its
braces are plain. -/
structure NamesBound (t : Text) (i : Import) : Prop where
  filled : ∀ n ∈ i.specifiers, n ≠ ""
  names : (∀ n ∈ i.specifiers, ∀ c ∈ n.toList, isNameChar c = true) ↔
    ∀ a b, ImportBraces t i a b →
      ∀ part ∈ Text.split ',' (t.slice (a + 1) b), PlainElement i.form part

theorem NamesBound.of_isName {i : Import} (names : ∀ n ∈ i.specifiers, IsName n)
    (bare : ∀ a b, ¬ImportBraces t i a b) : NamesBound t i :=
  ⟨fun n member => (names n member).1,
    fun _ a b braces => absurd braces (bare a b), fun _ n member => (names n member).2⟩

theorem stands_of_not_passes {p : Pattern} {d : Char} {caps after : Captures}
    (excluded : p.passes d = false) (member : (j, after) ∈ p.ways (.ofText t) i caps) :
    Stands t (· != d) i j := by
  intro k from_ inside
  obtain ⟨c, here, other⟩ := ne_of_not_passes excluded member k from_ inside
  exact ⟨c, here, bne_iff_ne.mpr other⟩

/-- The module that is imported: it stands between quotation marks and is recorded as a group. -/
def quotedSource (source : Nat) (class_ : Char → Bool) (rest : Pattern) : Pattern :=
  quote ++ (.group source (.greedy class_ 1) ++ rest)

theorem mem_ways_quotedSource {source : Nat} {class_ : Char → Bool} {rest : Pattern}
    {caps after : Captures} (plain : rest.groups = [])
    (way : (j, after) ∈ (quotedSource source class_ rest).ways (.ofText t) i caps) :
    Holds t isQuote i ∧ i < j ∧ ∃ l, after = (source, i + 1, l) :: caps := by
  obtain ⟨_, _, quoteWay, behindQuote⟩ := mem_ways_append.mp way
  obtain ⟨quoted, rfl, rfl⟩ := mem_ways_one_ofText.mp quoteWay
  obtain ⟨l, _, groupWay, restWay⟩ := mem_ways_append.mp behindQuote
  obtain ⟨_, sourceWay, rfl⟩ := mem_ways_group.mp groupWay
  obtain ⟨enough, -, rfl⟩ := mem_ways_greedy_ofText.mp sourceWay
  have later := (le_of_mem_ways restWay).1
  exact ⟨quoted, by omega, l, captures_of_plain plain restWay⟩

/-! ### Import clauses -/

theorem slice_ofString_slice {p r k l : Nat} (upTo : p + l ≤ r) :
    (Text.ofString (t.slice p r)).slice k l = t.slice (p + k) (p + l) := by
  have part : Text.ofString (t.slice p r) = t.extract p r := by
    rw [Text.ofString, toList_slice, Array.toArray_toList]
  rw [part, Text.slice, Text.slice, Array.extract_extract, Nat.min_eq_left upTo]

/-- Neither a brace nor a quotation mark. -/
def isPlainChar (c : Char) : Bool := c != '{' && c != '}' && !isQuote c

theorem isPlainChar_iff {c : Char} :
    isPlainChar c = true ↔ (c != '{') = true ∧ (c != '}') = true ∧ (!isQuote c) = true := by
  simp only [isPlainChar, Bool.and_eq_true, and_assoc]

theorem stands_isPlainChar {p : Pattern} {caps after : Captures}
    (excluded : ['{', '}', '"', '\''].all (!p.passes ·) = true)
    (member : (j, after) ∈ p.ways (.ofText t) i caps) : Stands t isPlainChar i j := by
  simp only [List.all_cons, List.all_nil, Bool.and_true, Bool.and_eq_true, Bool.not_eq_true'] at excluded
  obtain ⟨noOpen, noClose, noDouble, noSingle⟩ := excluded
  intro k from_ inside
  obtain ⟨c, here, notOpen⟩ := ne_of_not_passes noOpen member k from_ inside
  have other : ∀ {d : Char}, p.passes d = false → c ≠ d := by
    intro d excluded
    obtain ⟨c', there, unequal⟩ := ne_of_not_passes excluded member k from_ inside
    cases there.symm.trans here
    exact unequal
  exact ⟨c, here, by simp [isPlainChar, isQuote, notOpen, other noClose, other noDouble, other noSingle]⟩

/-- An import clause from `p` up to `r`, the rest of the import up to its first quotation mark. -/
structure ClauseAt (t : Text) (i : Import) (p r quote : Nat) : Prop where
  form : i.form = .es6
  from_ : i.start ≤ p
  lead : Stands t isPlainChar i.start p
  order : p ≤ r
  clause : Stands t Script.isClauseChar p r
  behind : r ≤ quote
  tail : Stands t isPlainChar r quote
  quoted : Holds t isQuote quote
  within : quote < i.stop

namespace ClauseAt

variable {i : Import} {p r quote : Nat}

theorem le_size (at_ : ClauseAt t i p r quote) : r ≤ t.size :=
  Nat.le_trans at_.behind (Nat.le_of_lt at_.quoted.lt_size)

theorem size_clause (at_ : ClauseAt t i p r quote) : (Text.ofString (t.slice p r)).size = r - p := by
  rw [Text.ofString, List.size_toArray, length_slice at_.le_size]

theorem getElem?_clause (at_ : ClauseAt t i p r quote) {k : Nat} (inside : p + k < r) :
    (Text.ofString (t.slice p r))[k]? = t[p + k]? := by
  rw [Text.ofString, List.getElem?_toArray, getElem?_slice at_.le_size inside]

theorem stands_clause (at_ : ClauseAt t i p r quote) {class_ : Char → Bool} {k l : Nat}
    (upTo : p + l ≤ r) :
    Stands (Text.ofString (t.slice p r)) class_ k l ↔ Stands t class_ (p + k) (p + l) := by
  constructor
  · intro stands o from_ inside
    obtain ⟨o, rfl⟩ := Nat.exists_eq_add_of_le (Nat.le_trans (Nat.le_add_right p k) from_)
    rw [← at_.getElem?_clause (by omega)]
    exact stands o (by omega) (by omega)
  · intro stands o from_ inside
    rw [at_.getElem?_clause (by omega)]
    exact stands (p + o) (by omega) (by omega)

theorem not_isQuote (at_ : ClauseAt t i p r quote) : Stands t (!isQuote ·) p r := by
  refine at_.clause.mono fun c inClause => ?_
  rw [Bool.not_eq_true', ← Bool.not_eq_true]
  intro mark
  simp only [isQuote, Bool.or_eq_true, beq_iff_eq] at mark
  rcases mark with rfl | rfl <;> exact absurd inClause (by decide)

/-- The first braces of the clause are those of the import. -/
theorem importBraces (at_ : ClauseAt t i p r quote)
    (braces : FirstBraces (Text.ofString (t.slice p r)) 0 (Text.ofString (t.slice p r)).size a b) :
    ImportBraces t i (p + a) (p + b) := by
  have inside := braces.within
  have order := braces.order
  have := at_.from_
  have := at_.behind
  have := at_.within
  rw [at_.size_clause] at inside
  have noBrace : Stands t (· != '{') i.start p :=
    at_.lead.mono fun c plain => (isPlainChar_iff.mp plain).1
  have noQuote : Stands t (!isQuote ·) i.start p :=
    at_.lead.mono fun c plain => (isPlainChar_iff.mp plain).2.2
  refine ⟨⟨by omega, ?_, ?_, by omega, ?_, ?_, by omega⟩, ?_, fun _ => ?_⟩
  · exact noBrace.append ((at_.stands_clause (by omega)).mp braces.before)
  · exact (at_.getElem?_clause (by omega)).symm.trans braces.opens
  · exact (at_.stands_clause (by omega)).mp braces.between
  · exact (at_.getElem?_clause (by omega)).symm.trans braces.closes
  · exact noQuote.append (at_.not_isQuote.narrow (Nat.le_refl p) (by omega))
  · exact at_.not_isQuote.narrow (by omega) (by omega)

/-- The braces of the import are the first ones of its clause. -/
theorem exists_firstBraces (at_ : ClauseAt t i p r quote) (braces : ImportBraces t i a b) :
    ∃ k l, a = p + k ∧ b = p + l ∧ p + l < r
      ∧ FirstBraces (Text.ofString (t.slice p r)) 0 (Text.ofString (t.slice p r)).size k l := by
  obtain ⟨mark, quotedHere, isMark⟩ := at_.quoted
  have := at_.from_
  have := at_.order
  have := at_.behind
  have order := braces.first.order
  -- Before and behind the clause there are no braces up to the quotation mark.
  have inClause : ∀ {d : Char} {k : Nat}, isPlainChar d = false → isQuote d = false →
      t[k]? = some d → i.start ≤ k → k ≤ quote → p ≤ k ∧ k < r := by
    intro d k brace noMark here from_ upTo
    refine ⟨at_.lead.le_of_not from_ here brace, ?_⟩
    rcases Nat.lt_or_ge k r with inside | beyond
    · exact inside
    · obtain rfl : k = quote := Nat.le_antisymm upTo (at_.tail.le_of_not beyond here brace)
      cases here.symm.trans quotedHere
      rw [isMark] at noMark
      cases noMark
  have openUpTo : a ≤ quote :=
    braces.unquoted.le_of_not (by omega) quotedHere (by simp [isMark])
  have closeUpTo : b ≤ quote :=
    (braces.inClause at_.form).le_of_not openUpTo quotedHere (by simp [isMark])
  obtain ⟨openFrom, openInside⟩ := inClause (by decide) (by decide) braces.first.opens
    braces.first.from_ openUpTo
  obtain ⟨closeFrom, closeInside⟩ := inClause (by decide) (by decide) braces.first.closes
    (by have := braces.first.from_; omega) closeUpTo
  obtain ⟨k, rfl⟩ := Nat.exists_eq_add_of_le openFrom
  obtain ⟨l, rfl⟩ := Nat.exists_eq_add_of_le closeFrom
  refine ⟨k, l, rfl, rfl, closeInside, Nat.zero_le k, ?_, ?_, by omega, ?_, ?_, ?_⟩
  · exact (at_.stands_clause (by omega)).mpr (braces.first.before.narrow (by omega) (Nat.le_refl _))
  · exact (at_.getElem?_clause (by omega)).trans braces.first.opens
  · exact (at_.stands_clause (by omega)).mpr braces.first.between
  · exact (at_.getElem?_clause (by omega)).trans braces.first.closes
  · rw [at_.size_clause]
    omega

end ClauseAt

def importLead : Pattern :=
  lineStart ++ indent ++ lit "import" ++ blanks1 ++ opt (lit "type" ++ blanks1)

def clauseTail : Pattern := blanks1 ++ lit "from" ++ blanks1

theorem importPattern_eq :
    Script.importPattern = importLead
      ++ (opt (.group 1 (.lazy Script.isClauseChar 1) ++ clauseTail)
        ++ quotedSource 2 (fun c => !isQuote c && c != '\n') quote) :=
  rfl

theorem importOf_eq (t : Text) (index : LineIndex) (m : Match) :
    Script.importOf t index m =
      ⟨m.groupText t 2, (Script.clauseBindings (m.groupText t 1)).1,
        (Script.clauseBindings (m.groupText t 1)).2, .es6, index.lineOf m.start, m.start, m.stop⟩ := by
  rw [Script.importOf]

/-- An import statement has a clause, or there is no brace before its first quotation mark. -/
theorem clauseAt_or_bare {m : Match} (isMatch : Script.importPattern.IsMatch (.ofText t) m)
    (index : LineIndex) :
    (∃ p r quote, ClauseAt t (Script.importOf t index m) p r quote
        ∧ m.groupText t 1 = t.slice p r)
      ∨ m.groupText t 1 = "" ∧ ∀ a b, ¬ImportBraces t (Script.importOf t index m) a b := by
  rw [IsMatch, importPattern_eq] at isMatch
  rw [importOf_eq]
  obtain ⟨p, between, leadWay, behindLead⟩ := mem_ways_append.mp isMatch
  obtain ⟨mark, inner, clauseWay, sourceWay⟩ := mem_ways_append.mp behindLead
  obtain ⟨quoted, within, l, captured⟩ := mem_ways_quotedSource rfl sourceWay
  have lead : Stands t isPlainChar m.start p := stands_isPlainChar (by decide) leadWay
  have from_ : m.start ≤ p := (le_of_mem_ways leadWay).1
  obtain rfl : between = [] := captures_of_plain rfl leadWay
  rcases mem_ways_opt.mp clauseWay with present | ⟨rfl, rfl⟩
  · obtain ⟨r, _, namesWay, tailWay⟩ := mem_ways_append.mp present
    obtain ⟨_, charsWay, rfl⟩ := mem_ways_group.mp namesWay
    obtain ⟨order, clause, rfl⟩ := mem_ways_lazy.mp charsWay
    obtain rfl : inner = _ := captures_of_plain rfl tailWay
    refine .inl ⟨p, r, mark, ⟨rfl, from_, lead, by omega, Subject.stands_of_has clause,
      (le_of_mem_ways tailWay).1, stands_isPlainChar (by decide) tailWay, quoted, within⟩, ?_⟩
    exact Match.groupText_of_lookup (by rw [captured]; rfl)
  · -- The quotation mark follows the keyword, which has no braces.
    refine .inr ⟨?_, fun a b => no_importBraces from_ (lead.mono ?_) quoted⟩
    · rw [Match.groupText, Match.group?_of_missing (by rw [captured]; rfl)]
      rfl
    · exact fun c plain => (isPlainChar_iff.mp plain).1

theorem namesBound_importOf {m : Match} (isMatch : Script.importPattern.IsMatch (.ofText t) m)
    (index : LineIndex) : NamesBound t (Script.importOf t index m) := by
  rcases clauseAt_or_bare isMatch index with ⟨p, r, quote, at_, clause⟩ | ⟨clause, bare⟩
  · rw [importOf_eq, clause] at at_ ⊢
    obtain ⟨filled, names⟩ := clauseBindings_iff (t.slice p r)
    -- What the clause binds is used through these two facts only.
    generalize Script.clauseBindings (t.slice p r) = bindings at at_ filled names ⊢
    refine ⟨filled, names.trans ⟨fun plain a b braces part inBraces => ?_,
      fun plain k l first part inBraces => ?_⟩⟩
    · obtain ⟨k, l, rfl, rfl, inside, first⟩ := at_.exists_firstBraces braces
      refine plain k l first part ?_
      rwa [slice_ofString_slice (Nat.le_of_lt inside)]
    · have inside := first.within
      rw [at_.size_clause] at inside
      refine plain _ _ (at_.importBraces first) part ?_
      rwa [Nat.add_assoc, ← slice_ofString_slice (r := r) (by omega)]
  · rw [importOf_eq, clause] at bare ⊢
    exact .of_isName (fun n member => by cases member) bare

/-! ### Required modules -/

def bindingLead : Pattern := wordEdge ++ words ["const", "let", "var"] ++ blanks1

/-- A call of `require` up to the quotation mark. -/
def requireLead : Pattern := lit "require" ++ blanks ++ char '(' ++ blanks

def bindingTail : Pattern := blanks ++ char '=' ++ blanks ++ requireLead

/-- A call of `require` from the quotation mark on. -/
def requireSource (source : Nat) : Pattern :=
  quotedSource source (!isQuote ·) (quote ++ blanks ++ char ')')

def bindingTarget : Pattern :=
  (char '{' ++ (.group 1 (.greedy (· != '}') 1) ++ char '}')) <|> .group 2 name

theorem requireBindingPattern_eq :
    Script.requireBindingPattern
      = bindingLead ++ (bindingTarget ++ (bindingTail ++ requireSource 3)) :=
  rfl

theorem bareRequirePattern_eq :
    Script.bareRequirePattern = (lineStart ++ indent ++ requireLead) ++ requireSource 1 :=
  rfl

theorem mem_ways_bindingTarget {caps after : Captures}
    (way : (j, after) ∈ bindingTarget.ways (.ofText t) a caps) :
    (∃ b, t[a]? = some '{' ∧ a < b ∧ Stands t (· != '}') (a + 1) b ∧ t[b]? = some '}' ∧ j = b + 1
        ∧ after = (1, a + 1, b) :: caps)
      ∨ a < j ∧ Stands t isNameChar a j ∧ after = (2, a, j) :: caps := by
  rcases mem_ways_orElse.mp way with braces | named
  · obtain ⟨_, _, openWay, behindOpen⟩ := mem_ways_append.mp braces
    obtain ⟨opens, rfl, rfl⟩ := mem_ways_char_ofText.mp openWay
    obtain ⟨b, _, groupWay, closeWay⟩ := mem_ways_append.mp behindOpen
    obtain ⟨_, charsWay, rfl⟩ := mem_ways_group.mp groupWay
    obtain ⟨order, stands, rfl⟩ := mem_ways_greedy_ofText.mp charsWay
    obtain ⟨closes, rfl, rfl⟩ := mem_ways_char_ofText.mp closeWay
    exact .inl ⟨b, opens, by omega, stands, closes, rfl, rfl⟩
  · obtain ⟨_, charsWay, rfl⟩ := mem_ways_group.mp named
    obtain ⟨order, run, rfl⟩ := mem_ways_greedy_ofText.mp charsWay
    exact .inr ⟨order, run, rfl⟩

theorem namesBound_bareRequireOf {m : Match}
    (isMatch : Script.bareRequirePattern.IsMatch (.ofText t) m) (index : LineIndex) :
    NamesBound t (Script.bareRequireOf t index m) := by
  rw [IsMatch, bareRequirePattern_eq] at isMatch
  obtain ⟨quote, _, leadWay, sourceWay⟩ := mem_ways_append.mp isMatch
  refine .of_isName (fun n member => by cases member) fun a b => ?_
  exact no_importBraces (le_of_mem_ways leadWay).1
    (stands_of_not_passes (by decide) leadWay) (mem_ways_quotedSource rfl sourceWay).1

/-- Empty names are dropped, and they have no characters to be looked at. -/
theorem forall_mem_filled {parts : List String} {f : String → String} {p : Char → Bool} :
    (∀ n ∈ (parts.map f).filter (!·.isEmpty), ∀ c ∈ n.toList, p c = true) ↔
      ∀ part ∈ parts, ∀ c ∈ (f part).toList, p c = true := by
  constructor
  · intro kept part listed c member
    refine kept (f part) (List.mem_filter.mpr ⟨List.mem_map_of_mem listed, ?_⟩) c member
    rw [Bool.not_eq_true', ← Bool.not_eq_true, String.isEmpty_iff]
    intro empty
    rw [empty] at member
    cases member
  · intro all n member
    obtain ⟨part, listed, rfl⟩ := List.mem_map.mp (List.mem_filter.mp member).1
    exact all part listed

/-- A required module that is bound to braces. -/
theorem namesBound_of_braces {m : Match} (index : LineIndex)
    (named : m.group? t 1 = some (t.slice (a + 1) b))
    (braces : ImportBraces t (Script.requireBindingOf t index m) a b) :
    NamesBound t (Script.requireBindingOf t index m) := by
  have specifiers : (Script.requireBindingOf t index m).specifiers
      = ((Text.split ',' (t.slice (a + 1) b)).map Script.destructuredName).filter (!·.isEmpty) := by
    simp only [Script.requireBindingOf, named]
  refine ⟨fun n member => ?_, ?_⟩
  · rw [specifiers] at member
    simpa using (List.mem_filter.mp member).2
  · rw [specifiers, forall_mem_filled]
    simp only [destructuredName_iff]
    constructor
    · -- Only the first braces count, and those are the ones that the pattern recorded.
      intro plain a' b' braces'
      obtain ⟨rfl, rfl⟩ := braces'.first.unique braces.first
      exact plain
    · intro plain
      exact plain a b braces

theorem namesBound_requireBindingOf {m : Match}
    (isMatch : Script.requireBindingPattern.IsMatch (.ofText t) m) (index : LineIndex) :
    NamesBound t (Script.requireBindingOf t index m) := by
  rw [IsMatch, requireBindingPattern_eq] at isMatch
  obtain ⟨a, between, leadWay, behindLead⟩ := mem_ways_append.mp isMatch
  obtain ⟨k, _, targetWay, behindTarget⟩ := mem_ways_append.mp behindLead
  obtain ⟨quote, _, tailWay, sourceWay⟩ := mem_ways_append.mp behindTarget
  obtain ⟨quoted, within, l, captured⟩ := mem_ways_quotedSource rfl sourceWay
  obtain rfl : between = [] := captures_of_plain rfl leadWay
  have lead : Stands t isPlainChar m.start a := stands_isPlainChar (by decide) leadWay
  have noBrace : Stands t (· != '{') m.start a := lead.mono fun c plain => (isPlainChar_iff.mp plain).1
  have from_ := (le_of_mem_ways leadWay).1
  have behind := (le_of_mem_ways tailWay).1
  rw [captures_of_plain rfl tailWay] at captured
  rcases mem_ways_bindingTarget targetWay with
    ⟨b, opens, order, stands, closes, rfl, rfl⟩ | ⟨order, run, rfl⟩
  · -- Between keyword and braces stand blanks alone, so no braces and no quotation come earlier.
    have inMatch : b < m.stop := by omega
    exact namesBound_of_braces index (Match.group?_of_lookup (by rw [captured]; rfl))
      ⟨⟨from_, noBrace, opens, order, stands, closes, inMatch⟩,
        lead.mono fun c plain => (isPlainChar_iff.mp plain).2.2, fun clause => by cases clause⟩
  · have unbraced : m.group? t 1 = none := Match.group?_of_missing (by rw [captured]; rfl)
    have named : m.group? t 2 = some (t.slice a k) := Match.group?_of_lookup (by rw [captured]; rfl)
    have upTo : m.start ≤ quote := by omega
    refine .of_isName (fun n member => ?_) fun _ _ => no_importBraces upTo ?_ quoted
    · simp only [Script.requireBindingOf, unbraced, named, Option.getD_some, List.mem_singleton]
        at member
      rw [member]
      exact isName_slice order run
    · have noneInName : Stands t (· != '{') a k := by
        refine run.mono fun c inName => bne_iff_ne.mpr ?_
        rintro rfl
        exact absurd inName (by decide)
      exact (noBrace.append noneInName).append (stands_of_not_passes (by decide) tailWay)

/-! ## Every import -/

/-- The specifiers of an import are never empty, and they are names exactly if the elements between the
braces of the import are plain. -/
theorem specifiers_are_names_iff {path language : String} {firstLine : Int} {i : Import}
    (imported : i ∈ (Script.outline t path language firstLine).imports) :
    (∀ n ∈ i.specifiers, n ≠ "")
      ∧ ((∀ n ∈ i.specifiers, ∀ c ∈ n.toList, isNameChar c = true) ↔
        ∀ a b, ImportBraces t i a b →
          ∀ part ∈ Text.split ',' (t.slice (a + 1) b), PlainElement i.form part) := by
  have bound : NamesBound t i := by
    rcases List.mem_append.mp (List.mem_mergeSort.mp imported) with early | bare
    · rcases List.mem_append.mp early with clause | binding
      · obtain ⟨m, found, rfl⟩ := List.mem_map.mp clause
        exact namesBound_importOf (isMatch_of_mem_findAll found) _
      · obtain ⟨m, found, rfl⟩ := List.mem_map.mp binding
        exact namesBound_requireBindingOf (isMatch_of_mem_findAll found) _
    · obtain ⟨m, found, rfl⟩ := List.mem_map.mp bare
      exact namesBound_bareRequireOf (isMatch_of_mem_findAll found) _
  exact ⟨bound.filled, bound.names⟩

/-- A script that takes one export of a module and leaves the others in one object. -/
def restRequired : String := "const { a, ...rest } = require('x')"

theorem rest_element_is_no_name :
    ∃ i ∈ (Script.outline (Text.ofString restRequired) "a.js" "javascript" 1).imports,
      ∃ n ∈ i.specifiers, ∃ c ∈ n.toList, isNameChar c = false := by
  have found : ∃ m ∈ Script.requireBindingPattern.findAll (.ofText (Text.ofString restRequired)),
      m.start = 0 ∧ m.stop = 35 := by decide
  obtain ⟨m, found, starts, stops⟩ := found
  have imported : Script.requireBindingOf (Text.ofString restRequired)
        (LineIndex.ofText (Text.ofString restRequired) 1) m
      ∈ (Script.outline (Text.ofString restRequired) "a.js" "javascript" 1).imports := by
    refine List.mem_mergeSort.mpr (List.mem_append_left _ (List.mem_append_right _ ?_))
    exact List.mem_map.mpr ⟨m, found, rfl⟩
  have braces : ImportBraces (Text.ofString restRequired)
      (Script.requireBindingOf (Text.ofString restRequired)
        (LineIndex.ofText (Text.ofString restRequired) 1) m) 6 19 := by
    refine ⟨?_, ?_, fun clause => by cases clause⟩
    · simp only [Script.requireBindingOf, starts, stops]
      exact ⟨by decide, by decide, by decide, by decide, by decide,
        by decide, by decide⟩
    · simp only [Script.requireBindingOf, starts]
      decide
  refine ⟨_, imported, ?_⟩
  by_contra none_
  push Not at none_
  have plain := (specifiers_are_names_iff imported).2.mp
    (fun n member c inName => by simpa using none_ n member c inName) 6 19 braces
    " ...rest " (by decide)
  exact absurd ((destructuredName_iff _).mpr plain '.' (by decide)) (by decide)

end Surveyor
