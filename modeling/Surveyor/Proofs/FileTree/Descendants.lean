import Mathlib.Data.List.Nodup
import Surveyor.FileTree.Basic

/-! # Everything below a directory

`FileNode.descendants` lists all that lies below a node, each with the names that lead there through
directories only. In a tree whose directories name each entry once, it is a list of what
`FileTree.plain?` finds (`mem_descendantsOf_iff`), with no names twice (`nodup_descendantsOf`).
-/

namespace Surveyor

def isEntryName (name : String) : Bool := !name.isEmpty && !name.toList.contains '/'

theorem isEntryName_iff {name : String} :
    isEntryName name = true ↔ name ≠ "" ∧ '/' ∉ name.toList := by
  simp [isEntryName]

namespace FileNode

mutual

/-- Every directory in and below the node names its entries once each, by names that entries can
have. -/
def isWellNamed : FileNode → Bool
  | .directory entries =>
    decide (entries.map (·.1)).Nodup && (entries.map (·.1)).all isEntryName && areWellNamed entries
  | .file _ _ | .link _ => true

def areWellNamed : List (String × FileNode) → Bool
  | [] => true
  | (_, node) :: rest => isWellNamed node && areWellNamed rest

end

mutual

/-- All that lies below a node, with the names that lead there. -/
def descendants : FileNode → List (List String × FileNode)
  | .directory entries => descendantsOf entries
  | .file _ _ | .link _ => []

def descendantsOf : List (String × FileNode) → List (List String × FileNode)
  | [] => []
  | (name, node) :: rest =>
    (([name], node) :: (descendants node).map fun item => (name :: item.1, item.2))
      ++ descendantsOf rest

end

/-- What names lead to through directories only. -/
def at? (node : FileNode) (names : List String) : Option FileNode :=
  names.foldl (fun found name => found.bind (·.child? name)) (some node)

theorem at?_cons (node : FileNode) (name : String) (rest : List String) :
    node.at? (name :: rest) = (node.child? name).bind (·.at? rest) := by
  show rest.foldl _ (node.child? name) = _
  cases node.child? name with
  | none =>
    induction rest with
    | nil => rfl
    | cons _ _ inductionHypothesis => exact inductionHypothesis
  | some child => rfl

theorem at?_append (node : FileNode) (front back : List String) :
    node.at? (front ++ back) = (node.at? front).bind (·.at? back) := by
  induction front generalizing node with
  | nil => rfl
  | cons name rest inductionHypothesis =>
    rw [List.cons_append, at?_cons, at?_cons]
    cases node.child? name with
    | none => rfl
    | some child => exact inductionHypothesis child

/-! ## Well-named nodes -/

section

variable {entries : List (String × FileNode)} {name : String} {node : FileNode}

theorem isWellNamed_directory :
    (directory entries).isWellNamed = true ↔ (entries.map (·.1)).Nodup
      ∧ (∀ name ∈ entries.map (·.1), isEntryName name = true) ∧ areWellNamed entries = true := by
  rw [isWellNamed, Bool.and_eq_true, Bool.and_eq_true, decide_eq_true_iff, List.all_eq_true,
    and_assoc]

theorem isWellNamed_of_mem (named : areWellNamed entries = true) (member : (name, node) ∈ entries) :
    node.isWellNamed = true := by
  induction entries with
  | nil => cases member
  | cons entry rest inductionHypothesis =>
    obtain ⟨otherName, other⟩ := entry
    rw [areWellNamed, Bool.and_eq_true] at named
    rcases List.mem_cons.mp member with same | later
    · cases same
      exact named.1
    · exact inductionHypothesis named.2 later

/-- Where entries are named once each, looking up a name finds the entry of that name. -/
theorem lookup_eq_some_iff (once : (entries.map (·.1)).Nodup) :
    entries.lookup name = some node ↔ (name, node) ∈ entries := by
  induction entries with
  | nil => simp
  | cons entry rest inductionHypothesis =>
    obtain ⟨otherName, other⟩ := entry
    rw [List.map_cons, List.nodup_cons] at once
    rw [List.lookup_cons, List.mem_cons, ← inductionHypothesis once.2]
    by_cases same : name = otherName
    · subst same
      have absent : (name, node) ∉ rest := fun member => once.1 (List.mem_map.mpr ⟨_, member, rfl⟩)
      rw [inductionHypothesis once.2]
      simp [absent, eq_comm]
    · have different : (name == otherName) = false := by simpa using same
      simp [different, same]

theorem isWellNamed_of_at? {found : FileNode} {names : List String} (named : node.isWellNamed = true)
    (leads : node.at? names = some found) : found.isWellNamed = true := by
  induction names generalizing node with
  | nil =>
    cases leads
    exact named
  | cons name rest inductionHypothesis =>
    rw [at?_cons, Option.bind_eq_some_iff] at leads
    obtain ⟨child, isChild, leads⟩ := leads
    cases node with
    | file _ _ | link _ => cases isChild
    | directory entries =>
      obtain ⟨once, -, allNamed⟩ := isWellNamed_directory.mp named
      exact inductionHypothesis
        (isWellNamed_of_mem allNamed ((lookup_eq_some_iff once).mp isChild)) leads

end

/-! ## What is listed -/

theorem mem_descendantsOf_iff {entries : List (String × FileNode)} {names : List String}
    {found : FileNode} :
    (names, found) ∈ descendantsOf entries ↔ ∃ name node rest, names = name :: rest
      ∧ (name, node) ∈ entries ∧ (rest = [] ∧ found = node ∨ (rest, found) ∈ descendants node) := by
  induction entries with
  | nil => simp [descendantsOf]
  | cons entry others inductionHypothesis =>
    obtain ⟨first, firstNode⟩ := entry
    rw [descendantsOf, List.mem_append, inductionHypothesis, List.mem_cons, List.mem_map]
    constructor
    · rintro ((here | ⟨⟨rest, _⟩, member, same⟩) | ⟨name, node, rest, same, member, below⟩)
      · cases here
        exact ⟨first, found, [], rfl, by simp, .inl ⟨rfl, rfl⟩⟩
      · cases same
        exact ⟨first, firstNode, rest, rfl, by simp, .inr member⟩
      · exact ⟨name, node, rest, same, by simp [member], below⟩
    · rintro ⟨name, node, rest, rfl, member, below⟩
      rcases List.mem_cons.mp member with here | later
      · cases here
        rcases below with ⟨rfl, rfl⟩ | below
        · exact .inl (.inl rfl)
        · exact .inl (.inr ⟨(rest, found), below, rfl⟩)
      · exact .inr ⟨name, node, rest, rfl, later, below⟩

/-- What is listed below a well-named node is what names lead to. -/
theorem mem_descendants_iff {node found : FileNode} {names : List String}
    (named : node.isWellNamed = true) :
    (names, found) ∈ descendants node ↔ names ≠ [] ∧ node.at? names = some found := by
  -- By induction on the names, as each of them goes one level down.
  induction names generalizing node with
  | nil =>
    cases node with
    | file _ _ | link _ => simp [descendants]
    | directory entries => simp [descendants, mem_descendantsOf_iff]
  | cons name rest inductionHypothesis =>
    cases node with
    | file _ _ | link _ => simp [descendants, at?_cons, child?]
    | directory entries =>
      obtain ⟨once, -, allNamed⟩ := isWellNamed_directory.mp named
      rw [descendants, mem_descendantsOf_iff, at?_cons, Option.bind_eq_some_iff]
      constructor
      · rintro ⟨_, node, _, same, member, below⟩
        cases same
        refine ⟨by simp, node, (lookup_eq_some_iff once).mpr member, ?_⟩
        rcases below with ⟨rfl, rfl⟩ | below
        · rfl
        · exact ((inductionHypothesis (isWellNamed_of_mem allNamed member)).mp below).2
      · rintro ⟨-, node, isChild, leads⟩
        have member := (lookup_eq_some_iff once).mp isChild
        refine ⟨name, node, rest, rfl, member, ?_⟩
        by_cases atEntry : rest = []
        · subst atEntry
          cases leads
          exact .inl ⟨rfl, rfl⟩
        · exact .inr ((inductionHypothesis (isWellNamed_of_mem allNamed member)).mpr
            ⟨atEntry, leads⟩)

theorem isEntryName_of_mem_descendants {node found : FileNode} {names : List String}
    (named : node.isWellNamed = true) (member : (names, found) ∈ descendants node) :
    ∀ name ∈ names, isEntryName name = true := by
  induction names generalizing node with
  | nil => simp
  | cons first rest inductionHypothesis =>
    cases node with
    | file _ _ | link _ => cases member
    | directory entries =>
      obtain ⟨-, entryNames, allNamed⟩ := isWellNamed_directory.mp named
      obtain ⟨_, node, _, same, isEntry, below⟩ := mem_descendantsOf_iff.mp member
      cases same
      refine List.forall_mem_cons.mpr ⟨entryNames first (List.mem_map.mpr ⟨_, isEntry, rfl⟩), ?_⟩
      rcases below with ⟨rfl, -⟩ | below
      · simp
      · exact inductionHypothesis (isWellNamed_of_mem allNamed isEntry) below

mutual

theorem nodup_descendants {node : FileNode} (named : node.isWellNamed = true) :
    ((descendants node).map (·.1)).Nodup := by
  cases node with
  | file _ _ | link _ => simp [descendants]
  | directory entries =>
    obtain ⟨once, -, allNamed⟩ := isWellNamed_directory.mp named
    exact nodup_descendantsOf once allNamed
termination_by structural node

theorem nodup_descendantsOf {entries : List (String × FileNode)}
    (once : (entries.map (·.1)).Nodup) (named : areWellNamed entries = true) :
    ((descendantsOf entries).map (·.1)).Nodup := by
  match entries with
  | [] => simp [descendantsOf]
  | (name, node) :: rest =>
    rw [areWellNamed, Bool.and_eq_true] at named
    rw [List.map_cons, List.nodup_cons] at once
    have own : (((descendants node).map (·.1)).map (name :: ·)).Nodup :=
      List.Nodup.map List.cons_injective (nodup_descendants named.1)
    have others := nodup_descendantsOf once.2 named.2
    rw [descendantsOf, List.map_append, List.map_cons, List.map_map]
    rw [List.map_map] at own
    refine List.nodup_append.mpr ⟨List.nodup_cons.mpr ⟨?_, own⟩, others, ?_⟩
    · -- What lies below an entry has further names.
      rintro member
      obtain ⟨⟨names, found⟩, isBelow, same⟩ := List.mem_map.mp member
      obtain ⟨nonempty, -⟩ := (mem_descendants_iff named.1).mp isBelow
      exact nonempty (List.cons.inj same).2
    · -- All that is listed for an entry begins with its name.
      intro here startsHere there startsThere same
      subst same
      obtain ⟨⟨names, found⟩, isBelow, rfl⟩ := List.mem_map.mp startsThere
      obtain ⟨other, _, _, starts, isEntry, -⟩ := mem_descendantsOf_iff.mp isBelow
      have isOther : other = name := by
        rw [starts] at startsHere
        rcases List.mem_cons.mp startsHere with same | below
        · exact (List.cons.inj same).1
        · obtain ⟨_, -, same⟩ := List.mem_map.mp below
          exact (List.cons.inj same).1.symm
      subst isOther
      exact once.1 (List.mem_map.mpr ⟨_, isEntry, rfl⟩)
termination_by structural entries

end

end FileNode

/-! ## Trees -/

namespace FileTree

variable {tree : FileTree}

theorem plain?_append {place names : List String} {node : FileNode}
    (here : tree.plain? place = some node) : tree.plain? (place ++ names) = node.at? names := by
  show tree.root.at? (place ++ names) = node.at? names
  rw [FileNode.at?_append, show tree.root.at? place = some node from here]
  rfl

/-- What is found lies at the place where it is said to lie. -/
theorem plain?_of_walk {fuel links : Nat} {start names place : List String} {node : FileNode}
    (found : tree.walk fuel links start names = some (place, node)) :
    tree.plain? place = some node := by
  induction fuel generalizing links start names with
  | zero => cases found
  | succ fuel inductionHypothesis =>
    cases names with
    | nil =>
      obtain ⟨there, isThere, same⟩ := Option.map_eq_some_iff.mp found
      cases same
      exact isThere
    | cons name rest =>
      rw [walk] at found
      -- Every turn of the walk ends with another walk, or nowhere.
      split at found
      · split at found
        · exact inductionHypothesis found
        · split at found
          · exact inductionHypothesis found
          · split at found
            · split at found
              · exact inductionHypothesis found
              · cases found
            · exact inductionHypothesis found
            · cases found
      · cases found

end FileTree

end Surveyor
