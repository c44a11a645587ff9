import Surveyor.Proofs.Catalog.TreeLines

/-! # Canonical places

Looking up a path takes apart links, dots and steps up, and gives the place where it ends. That place
needs none of them: looked up again, as names or as an absolute path, it leads to itself
(`find?_absolute`). Following links gives the same place (`realPath?_of_find?`), although it goes on where
looking up stops.
-/

namespace Surveyor.FileTree

variable {tree : FileTree}

/-- A place whose names are those of entries, none of them a link. -/
structure IsCanonical (tree : FileTree) (place : List String) : Prop where
  proper : ∀ name ∈ place, name ≠ "." ∧ name ≠ ".."
  noLink : ∀ front target, front <+: place → front ≠ [] → tree.plain? front ≠ some (.link target)

theorem isCanonical_nil : tree.IsCanonical [] := by
  refine ⟨by simp, ?_⟩
  intro front target before nonempty
  exact absurd (List.prefix_nil.mp before) nonempty

theorem IsCanonical.before {front place : List String} (canonical : tree.IsCanonical place)
    (before : front <+: place) : tree.IsCanonical front :=
  ⟨fun name member => canonical.proper name (before.subset member),
    fun part target earlier => canonical.noLink part target (earlier.trans before)⟩

theorem IsCanonical.down {place : List String} {name : String} {node : FileNode}
    (canonical : tree.IsCanonical place) (proper : name ≠ "." ∧ name ≠ "..")
    (there : tree.plain? (place ++ [name]) = some node) (notLink : ∀ target, node ≠ .link target) :
    tree.IsCanonical (place ++ [name]) := by
  constructor
  · intro other member
    rcases List.mem_append.mp member with earlier | last
    · exact canonical.proper other earlier
    · rw [List.mem_singleton.mp last]
      exact proper
  · intro front target before nonempty
    rcases List.prefix_concat_iff.mp before with whole | earlier
    · rw [whole, there]
      intro same
      exact notLink target (Option.some.inj same)
    · exact canonical.noLink front target earlier nonempty

/-! ## Where a walk ends -/

/-- What every step of a walk preserves holds of the place where the walk ends. `P` is about the names
that may still be looked up and the directory that was reached. -/
theorem walk_preserves {P : Nat → List String → Prop}
    (stays : ∀ fuel place, P (fuel + 1) place → P fuel place)
    (restarts : ∀ fuel place, P (fuel + 1) place → P fuel [])
    (up : ∀ fuel place, P (fuel + 1) place → P fuel place.dropLast)
    (down : ∀ fuel place name node, P (fuel + 1) place → name ≠ "." ∧ name ≠ ".." →
      tree.plain? (place ++ [name]) = some node → (∀ target, node ≠ .link target) →
        P fuel (place ++ [name]))
    {fuel links : Nat} {start names place : List String} {node : FileNode}
    (begins : P fuel start) (found : tree.walk fuel links start names = some (place, node)) :
    ∃ left, P (left + 1) place := by
  induction fuel generalizing links start names with
  | zero => cases found
  | succ fuel inductionHypothesis =>
    cases names with
    | nil =>
      obtain ⟨_, -, same⟩ := Option.map_eq_some_iff.mp found
      cases same
      exact ⟨fuel, begins⟩
    | cons name rest =>
      rw [walk] at found
      split at found
      · next entries here =>
        split at found
        · exact inductionHypothesis (stays _ _ begins) found
        · split at found
          · exact inductionHypothesis (up _ _ begins) found
          · next notDot notUp =>
            split at found
            · split at found
              · next links steps _ =>
                -- The names of a link start from the directory where it lies, or from the top.
                refine inductionHypothesis ?_ found
                unfold startOf
                split
                · exact restarts _ _ begins
                · exact stays _ _ begins
              · cases found
            · next child notLink isChild =>
              have there : tree.plain? (start ++ [name]) = some child := by
                rw [plain?_append here, FileNode.at?_cons]
                simp [FileNode.child?, isChild, FileNode.at?]
              refine inductionHypothesis (down _ _ _ child begins ?_ there ?_) found
              · exact ⟨by simpa using notDot, by simpa using notUp⟩
              · rintro target rfl
                exact notLink target rfl
            · cases found
      · cases found

/-- Where a walk ends is a canonical place, not farther down than the walk was long. -/
theorem isCanonical_of_walk {fuel links : Nat} {names place : List String} {node : FileNode}
    (found : tree.walk fuel links [] names = some (place, node)) :
    tree.IsCanonical place ∧ place.length < fuel := by
  obtain ⟨left, canonical, within⟩ := walk_preserves
    (P := fun left place => tree.IsCanonical place ∧ place.length + left ≤ fuel)
    (fun left place ⟨canonical, within⟩ => ⟨canonical, by omega⟩)
    (fun left place ⟨_, within⟩ => ⟨isCanonical_nil, by simp; omega⟩)
    (fun left place ⟨canonical, within⟩ => ⟨canonical.before (List.dropLast_prefix place), by
      simp only [List.length_dropLast]
      omega⟩)
    (fun left place name node ⟨canonical, within⟩ proper there notLink =>
      ⟨canonical.down proper there notLink, by simp only [List.length_append, List.length_singleton]; omega⟩)
    ⟨isCanonical_nil, by simp⟩ found
  exact ⟨canonical, by omega⟩

/-- A canonical place is found where it is. -/
theorem walk_of_isCanonical {fuel links : Nat} {done rest : List String} {node : FileNode}
    (canonical : tree.IsCanonical (done ++ rest)) (here : tree.plain? (done ++ rest) = some node)
    (enough : rest.length < fuel) :
    tree.walk fuel links done rest = some (done ++ rest, node) := by
  induction rest generalizing done fuel with
  | nil =>
    obtain ⟨fuel, rfl⟩ := Nat.exists_eq_succ_of_ne_zero (Nat.ne_of_gt enough)
    rw [List.append_nil] at here ⊢
    rw [walk, here]
    rfl
  | cons name rest inductionHypothesis =>
    obtain ⟨fuel, rfl⟩ := Nat.exists_eq_succ_of_ne_zero (Nat.ne_of_gt (Nat.zero_lt_of_lt enough))
    have further : done ++ name :: rest = (done ++ [name]) ++ rest := by simp
    rw [further] at canonical here ⊢
    have proper := canonical.proper name (by simp)
    -- Going on from a place means that it is a directory.
    obtain ⟨parent, isParent⟩ : ∃ parent, tree.plain? done = some parent := by
      cases there : tree.plain? done with
      | some parent => exact ⟨parent, rfl⟩
      | none =>
        have lost : tree.root.at? (done ++ name :: rest) = some node := further ▸ here
        rw [FileNode.at?_append, show tree.root.at? done = none from there] at lost
        cases lost
    have below : parent.at? (name :: rest) = some node := by
      rw [← plain?_append isParent]
      simpa using here
    rw [FileNode.at?_cons, Option.bind_eq_some_iff] at below
    obtain ⟨child, isChild, -⟩ := below
    cases parent with
    | file _ _ | link _ => cases isChild
    | directory entries =>
      have there : tree.plain? (done ++ [name]) = some child := by
        rw [plain?_append isParent, FileNode.at?_cons, isChild]
        rfl
      have goesOn := inductionHypothesis canonical here (Nat.lt_of_succ_lt_succ enough)
      have found : entries.lookup name = some child := isChild
      simp only [walk, isParent, beq_iff_eq, proper.1, proper.2, ↓reduceIte, found]
      cases child with
      | link target =>
        exact absurd there (canonical.noLink _ target (List.prefix_append _ _) (by simp))
      | file _ _ | directory _ => exact goesOn

/-! ## Absolute paths -/

/-- The characters of a path are those of its start, and of every name behind a slash. -/
theorem toList_foldl_names (names : List String) (start : String) :
    (names.foldl (fun path name => path ++ "/" ++ name) start).toList
      = start.toList ++ ['/'].intercalate ([] :: names.map String.toList) := by
  induction names generalizing start with
  | nil => simp
  | cons name rest inductionHypothesis =>
    rw [List.foldl_cons, inductionHypothesis]
    cases rest with
    | nil => simp
    | cons second others => simp

theorem pathNames_of_names {place : List String}
    (named : ∀ name ∈ place, isEntryName name = true ∧ name ≠ ".") :
    pathNames (String.ofList (['/'].intercalate ([] :: place.map String.toList))) = place := by
  have parts : Text.split '/' (String.ofList (['/'].intercalate ([] :: place.map String.toList)))
      = "" :: place := by
    rw [Text.split, Text.splitChars_eq_splitOn, String.toList_ofList, List.splitOn_intercalate]
    · simp
    · intro part member
      rcases List.mem_cons.mp member with rfl | inPlace
      · simp
      · obtain ⟨name, isName, rfl⟩ := List.mem_map.mp inPlace
        exact (isEntryName_iff.mp (named name isName).1).2
    · simp
  rw [pathNames, parts, List.filter_cons_of_neg (by simp), List.filter_eq_self]
  intro name member
  have nonempty := (isEntryName_iff.mp (named name member).1).1
  simp [nonempty, (named name member).2]

theorem names?_absolute {place : List String}
    (named : ∀ name ∈ place, isEntryName name = true ∧ name ≠ ".") (here : List String) :
    tree.names? here (tree.absolute place) = some place := by
  by_cases top : place.isEmpty && tree.anchor.isEmpty
  · -- The top of everything is called by a slash.
    simp only [Bool.and_eq_true, List.isEmpty_iff, String.isEmpty_iff] at top
    obtain ⟨rfl, noAnchor⟩ := top
    have below : Text.hasPrefix "/" ("" ++ "/") = true := by decide
    have noNames : pathNames (String.ofList ("/".toList.drop "".length)) = [] := by decide
    have isSlash : tree.absolute [] = "/" := by simp [absolute, noAnchor]
    rw [names?, isSlash, noAnchor, below, Bool.or_true, if_pos rfl, noNames]
  · have chars := toList_foldl_names place tree.anchor
    have below : (tree.absolute place == tree.anchor
        || Text.hasPrefix (tree.absolute place) (tree.anchor ++ "/")) = true := by
      rw [absolute, if_neg top]
      cases place with
      | nil => simp
      | cons name rest =>
        rw [Bool.or_eq_true]
        right
        rw [Text.hasPrefix, List.isPrefixOf_iff_prefix, chars]
        simp
    have rest : (tree.absolute place).toList.drop tree.anchor.length
        = ['/'].intercalate ([] :: place.map String.toList) := by
      rw [absolute, if_neg top, chars]
      exact List.drop_left' rfl
    rw [names?, if_pos below, rest, pathNames_of_names named]

/-- The absolute path of where a path leads leads to the same. -/
theorem find?_absolute {here place names : List String} {node : FileNode}
    (named : tree.root.isWellNamed = true) (found : tree.find? names = some (place, node)) :
    (tree.names? here (tree.absolute place)).bind tree.find? = some (place, node) := by
  obtain ⟨canonical, within⟩ := isCanonical_of_walk found
  have there := plain?_of_walk found
  have entryNames : ∀ name ∈ place, isEntryName name = true := by
    by_cases atRoot : place = []
    · simp [atRoot]
    · exact FileNode.isEntryName_of_mem_descendants named
        ((FileNode.mem_descendants_iff named).mpr ⟨atRoot, there⟩)
  rw [names?_absolute fun name member => ⟨entryNames name member, (canonical.proper name member).1⟩]
  exact walk_of_isCanonical canonical there within

/-! ## Following links -/

theorem follow_succ {fuel : Nat} {done names place : List String}
    (found : tree.follow fuel done names = some place) :
    tree.follow (fuel + 1) done names = some place := by
  induction fuel generalizing done names with
  | zero => cases found
  | succ fuel inductionHypothesis =>
    cases names with
    | nil => exact found
    | cons name rest =>
      rw [follow] at found ⊢
      -- Whatever the next name leads to, the rest is followed with less fuel.
      by_cases up : (name == "..") = true
      · rw [if_pos up] at found ⊢
        exact inductionHypothesis found
      · rw [if_neg up] at found ⊢
        cases child : (tree.plain? done).bind (·.child? name) with
        | none =>
          simp only [child] at found ⊢
          exact inductionHypothesis found
        | some node =>
          cases node with
          | file _ _ | directory _ =>
            simp only [child] at found ⊢
            exact inductionHypothesis found
          | link target =>
            cases steps : tree.names? [] target with
            | none | some _ =>
              simp only [child, steps] at found ⊢
              exact inductionHypothesis found

theorem filter_names? {here : List String} {path : String} {names : List String}
    (plain : "." ∉ here) (leads : tree.names? here path = some names) :
    names.filter (· != ".") = names := by
  have noDot : "." ∉ names := by
    unfold names? at leads
    split at leads
    · simp [← Option.some.inj leads, pathNames]
    · split at leads
      · cases leads
      · simp [← Option.some.inj leads, pathNames, plain]
  rw [List.filter_eq_self]
  intro name member
  simpa using ne_of_mem_of_not_mem member noDot

/-- Links are followed to where a walk goes. Dots, which a walk passes over, are left out. -/
theorem follow_of_walk {fuel links : Nat} {done names place : List String} {node : FileNode}
    (found : tree.walk fuel links done names = some (place, node)) :
    tree.follow fuel done (names.filter (· != ".")) = some place := by
  induction fuel generalizing links done names with
  | zero => cases found
  | succ fuel inductionHypothesis =>
    cases names with
    | nil =>
      rw [walk] at found
      obtain ⟨_, -, same⟩ := Option.map_eq_some_iff.mp found
      cases same
      rfl
    | cons name rest =>
      rw [walk] at found
      split at found
      · next entries here =>
        by_cases stay : name = "."
        · simp only [stay, beq_self_eq_true, ↓reduceIte] at found
          rw [stay, List.filter_cons_of_neg (by simp)]
          exact follow_succ (inductionHypothesis found)
        · rw [List.filter_cons_of_pos (by simpa using stay), follow]
          simp only [beq_iff_eq, stay, ↓reduceIte] at found ⊢
          by_cases up : name = ".."
          · simp only [up, ↓reduceIte] at found ⊢
            exact inductionHypothesis found
          · simp only [up, ↓reduceIte, here, Option.bind_some, FileNode.child?] at found ⊢
            split at found
            · next target isLink =>
              split at found
              · next links _ leads =>
                -- The dot that asks for a directory is left out again.
                obtain ⟨steps, isTarget, rfl⟩ := Option.map_eq_some_iff.mp leads
                have noDots := filter_names? (by simp) isTarget
                have followed := inductionHypothesis found
                rw [List.filter_append] at followed
                simp only [isLink, isTarget]
                split at followed
                · simpa [noDots] using followed
                · simpa [noDots] using followed
              · cases found
            · next other notLink there =>
              rw [there]
              cases other with
              | link target => exact absurd rfl (notLink target)
              | file _ _ | directory _ => exact inductionHypothesis found
            · cases found
      · cases found

/-- A path that leads somewhere has its canonical place there. -/
theorem realPath?_of_find? {here : List String} {path : String} {names place : List String} {node : FileNode}
    (plain : "." ∉ here) (leads : tree.names? here path = some names)
    (found : tree.find? names = some (place, node)) : tree.realPath? names = some place := by
  have followed := follow_of_walk found
  rwa [filter_names? plain leads] at followed

end Surveyor.FileTree
