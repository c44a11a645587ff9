import Mathlib.Algebra.BigOperators.Group.List.Basic
import Mathlib.Algebra.Group.Prod
import Mathlib.Algebra.GroupWithZero.Nat
import Mathlib.Algebra.Order.Group.Multiset
import Mathlib.Data.List.TakeWhile
import Surveyor.Proofs.Catalog.Paths
import Surveyor.Proofs.Catalog.Records
import Surveyor.Proofs.Text.Sorted

/-! # A survey is a filter

A survey descends from directory to directory and leaves out what is excluded on the way. It comes to
the same as looking at everything below the root at once: an entry is seen if none of its names is
hidden and no pattern occurs in its whole path (`isSeen_iff`), since what occurs in the path of a
directory occurs in all paths below it.

What a folder holds is taken together in its `Folder.tally`, which does not depend on the order of the
entries. The descent is compared with the flat list of descendants by induction over the tree
(`tally_prune`).
-/

namespace Surveyor

/-- The file that a node at names is, or that it leads to. -/
def FileTree.fileOf? (tree : FileTree) (names : List String) : FileNode → Option (ByteArray × Int)
  | .file bytes modified => some (bytes, modified)
  | .link _ =>
    match tree.find? names with
    | some (_, .file bytes modified) => some (bytes, modified)
    | _ => none
  | .directory _ => none

/-- The file at names that pass through directories only, or that a link there leads to. -/
def FileTree.fileAt? (tree : FileTree) (names : List String) : Option (ByteArray × Int) :=
  (tree.plain? names).bind (tree.fileOf? names)

/-- None of the names is hidden, and no pattern occurs in their path. -/
structure IsVisible (excluded names : List String) : Prop where
  notHidden : ∀ name ∈ names, isHidden name = false
  notExcluded : ∀ pattern ∈ excluded, Text.strip pattern ≠ "" →
    ¬ (Text.strip pattern).toList <:+: (pathOf names).toList

/-- Exactly `n` lists of names have a property. -/
def HoldsFor (n : Nat) (property : List String → Prop) : Prop :=
  ∃ found : List (List String), found.Nodup ∧ (∀ names, names ∈ found ↔ property names)
    ∧ found.length = n

theorem HoldsFor.congr {n : Nat} {property other : List String → Prop} (holds : HoldsFor n property)
    (same : ∀ names, property names ↔ other names) : HoldsFor n other := by
  obtain ⟨found, once, isFound, count⟩ := holds
  exact ⟨found, once, fun names => (isFound names).trans (same names), count⟩

/-- The catalogue holds what a filter over all that lies below the root would keep. -/
structure Catalog.KeepsVisible (tree : FileTree) (place excluded : List String) (maxFileSize : Int)
    (catalog : Catalog) : Prop where
  recorded : ∀ record, record ∈ catalog.files ↔ ∃ names name bytes modified,
    names.getLast? = some name ∧ IsVisible excluded names
      ∧ tree.fileAt? (place ++ names) = some (bytes, modified) ∧ isMinified name = false
      ∧ record = .ofFile maxFileSize (pathOf names) name bytes modified
  sorted : catalog.files.Pairwise fun a b => a.path < b.path
  minified : HoldsFor catalog.minifiedSkipped fun names => ∃ name,
    names.getLast? = some name ∧ IsVisible excluded names
      ∧ (tree.fileAt? (place ++ names)).isSome = true ∧ isMinified name = true
  folders : HoldsFor catalog.totalFolders fun names => names ≠ [] ∧ IsVisible excluded names
    ∧ ∃ entries, tree.plain? (place ++ names) = some (.directory entries)

def SurveyRules.excluding (excluded : List String) (maxFileSize : Int) : SurveyRules :=
  ⟨exclusionPatterns excluded, maxFileSize⟩

/-! ## What is seen -/

theorem mem_exclusionPatterns {excluded : List String} {pattern : String} :
    pattern ∈ exclusionPatterns excluded ↔
      pattern ≠ "" ∧ ∃ given ∈ excluded, Text.strip given = pattern := by
  have adds : ∀ (patterns : List String) (first : String),
      (pattern ∈ if first.isEmpty || patterns.contains first then patterns else patterns ++ [first])
        ↔ pattern ∈ patterns ∨ pattern ≠ "" ∧ pattern = first := by
    intro patterns first
    split
    · next kept =>
      rw [Bool.or_eq_true, String.isEmpty_iff, List.contains_iff_mem] at kept
      constructor
      · exact .inl
      · rintro (present | ⟨nonempty, rfl⟩)
        · exact present
        · exact kept.resolve_left nonempty
    · next fresh =>
      rw [Bool.or_eq_true, String.isEmpty_iff, not_or] at fresh
      rw [List.mem_append, List.mem_singleton]
      constructor
      · rintro (present | rfl)
        · exact .inl present
        · exact .inr ⟨fresh.1, rfl⟩
      · rintro (present | ⟨-, same⟩)
        · exact .inl present
        · exact .inr same
  -- Generalised over the patterns that are there already.
  have collects : ∀ stripped patterns : List String,
      pattern ∈ stripped.foldl (fun patterns pattern =>
        if pattern.isEmpty || patterns.contains pattern then patterns else patterns ++ [pattern])
        patterns ↔ pattern ∈ patterns ∨ pattern ≠ "" ∧ pattern ∈ stripped := by
    intro stripped
    induction stripped with
    | nil => simp
    | cons first rest inductionHypothesis =>
      intro patterns
      rw [List.foldl_cons, inductionHypothesis, adds, List.mem_cons, and_or_left, or_assoc]
  rw [exclusionPatterns, collects]
  simp

/-- Is an entry seen below a directory that is? Each of its names must pass on the way down. -/
def isSeen (patterns above : List String) : List String → Bool
  | [] => true
  | name :: rest =>
    !isExcluded name (pathOf (above ++ [name])) patterns && isSeen patterns (above ++ [name]) rest

theorem isExcluded_eq_false_iff {name : String} {above patterns : List String} :
    isExcluded name (pathOf (above ++ [name])) patterns = false ↔ isHidden name = false
      ∧ ∀ pattern ∈ patterns, pattern ≠ "" →
        ¬ pattern.toList <:+: (pathOf (above ++ [name])).toList := by
  -- A pattern that is the name occurs in the path, so the second test covers the first.
  have occurs : ∀ pattern, (name == pattern || Text.contains (pathOf (above ++ [name])) pattern)
      = true ↔ pattern.toList <:+: (pathOf (above ++ [name])).toList := by
    intro pattern
    rw [Bool.or_eq_true, beq_iff_eq, Text.contains_iff]
    constructor
    · rintro (rfl | occurs)
      · exact (name_suffix_pathOf above name).isInfix
      · exact occurs
    · exact .inr
  simp only [isExcluded, Bool.or_eq_false_iff, List.any_eq_false, matchesExclusion,
    Bool.and_eq_true, occurs, Bool.not_eq_true', String.isEmpty_eq_false_iff, not_and]

/-- What passes on the way down is what passes as a whole. -/
theorem isSeen_iff {patterns above names : List String} :
    isSeen patterns above names = true ↔ (∀ name ∈ names, isHidden name = false)
      ∧ (names ≠ [] → ∀ pattern ∈ patterns, pattern ≠ "" →
        ¬ pattern.toList <:+: (pathOf (above ++ names)).toList) := by
  induction names generalizing above with
  | nil => simp [isSeen]
  | cons name rest inductionHypothesis =>
    rw [isSeen, Bool.and_eq_true, Bool.not_eq_true', isExcluded_eq_false_iff, inductionHypothesis,
      List.append_assoc, List.singleton_append]
    constructor
    · rintro ⟨⟨shown, allowed⟩, restShown, restAllowed⟩
      refine ⟨List.forall_mem_cons.mpr ⟨shown, restShown⟩, fun _ => ?_⟩
      by_cases last : rest = []
      · rw [last]
        exact allowed
      · exact restAllowed last
    · rintro ⟨shown, allowed⟩
      obtain ⟨nameShown, restShown⟩ := List.forall_mem_cons.mp shown
      have wholePath := allowed (by simp)
      refine ⟨⟨nameShown, fun pattern member nonempty occurs => ?_⟩, restShown, fun _ => wholePath⟩
      -- What occurs in the path of a directory occurs in all paths below it.
      refine wholePath pattern member nonempty (occurs.trans ?_)
      have above' := pathOf_prefix_append (above ++ [name]) rest
      rw [List.append_assoc, List.singleton_append] at above'
      exact above'.isInfix

theorem isSeen_exclusionPatterns_iff {excluded names : List String} (nonempty : names ≠ []) :
    isSeen (exclusionPatterns excluded) [] names = true ↔ IsVisible excluded names := by
  rw [isSeen_iff, List.nil_append]
  constructor
  · rintro ⟨shown, allowed⟩
    refine ⟨shown, fun pattern member some => ?_⟩
    exact allowed nonempty _ (mem_exclusionPatterns.mpr ⟨some, pattern, member, rfl⟩) some
  · rintro ⟨shown, allowed⟩
    refine ⟨shown, fun _ pattern member _ => ?_⟩
    obtain ⟨some, given, isGiven, rfl⟩ := mem_exclusionPatterns.mp member
    exact allowed given isGiven some

/-! ## Tallies -/

/-- Records without their order, the number of minified files, and the number of folders. -/
abbrev Tally := Multiset FileRecord × ℕ × ℕ

namespace Folder

/-- What a folder holds, all folders below it included. -/
def tally (f : Folder) : Tally := (f.records, f.minifiedCount, f.folderCount)

end Folder

def FolderEntry.tally : FolderEntry → Tally
  | .folder f => (0, 0, 1) + f.tally
  | .file r => ({r}, 0, 0)
  | .minified => (0, 1, 0)

theorem tally_ofEntries (name : String) (entries : List (String × FolderEntry)) :
    (Folder.ofEntries name entries).tally = (entries.map (·.2.tally)).sum := by
  -- A sum does not depend on the order, so the entries may be taken as sorted.
  have sameSum : (((Folder.sortEntries entries).map (·.2)).map FolderEntry.tally).sum
      = (entries.map (·.2.tally)).sum := by
    rw [List.map_map]
    exact ((List.mergeSort_perm entries _).map fun entry => entry.2.tally).sum_eq
  rw [← sameSum, Folder.ofEntries]
  generalize (Folder.sortEntries entries).map (·.2) = sorted
  induction sorted with
  | nil => rfl
  | cons entry rest inductionHypothesis =>
    rw [List.map_cons, List.sum_cons, ← inductionHypothesis]
    cases entry with
    | folder f =>
      simp only [Folder.tally, FolderEntry.tally, List.filterMap_cons, List.countP_cons,
        Folder.records, Folder.recordsOfAll, Folder.minifiedCount, Folder.minifiedCountOfAll,
        Folder.folderCount, Folder.folderCountOfAll, Prod.mk_add_mk, ← Multiset.coe_add]
      refine Prod.ext ?_ (Prod.ext ?_ ?_)
      · simp only [zero_add]
        exact add_left_comm _ _ _
      · simp only [Bool.false_eq_true, ↓reduceIte]
        omega
      · rfl
    | file r =>
      simp only [Folder.tally, FolderEntry.tally, List.filterMap_cons, List.countP_cons,
        Folder.records, Folder.minifiedCount, Folder.folderCount, Prod.mk_add_mk, List.cons_append,
        ← Multiset.cons_coe, Multiset.singleton_add]
      simp
    | minified =>
      simp only [Folder.tally, FolderEntry.tally, List.filterMap_cons, List.countP_cons,
        Folder.records, Folder.minifiedCount, Folder.folderCount, Prod.mk_add_mk, zero_add,
        ↓reduceIte]
      refine Prod.ext rfl (Prod.ext ?_ rfl)
      simp only
      omega

/-! ## What a flat list comes to -/

section

variable (tree : FileTree) (rules : SurveyRules) (place : List String)

def recordAt? (names : List String) (node : FileNode) : Option FileRecord :=
  (tree.fileOf? (place ++ names) node).bind fun (bytes, modified) =>
    let name := names.getLastD ""
    if isMinified name then none
    else some (.ofFile rules.maxFileSize (pathOf names) name bytes modified)

def isMinifiedAt (names : List String) (node : FileNode) : Bool :=
  (tree.fileOf? (place ++ names) node).isSome && isMinified (names.getLastD "")

/-- The tally of those descendants of the directory `above` that are seen. -/
def flatTally (above : List String) (items : List (List String × FileNode)) : Tally :=
  let seen := items.filter fun item => isSeen rules.patterns above item.1
  (seen.filterMap fun item => recordAt? tree rules place (above ++ item.1) item.2,
    seen.countP fun item => isMinifiedAt tree place (above ++ item.1) item.2,
    seen.countP fun item => item.2.isDirectory)

theorem flatTally_nil (above : List String) : flatTally tree rules place above [] = 0 := rfl

theorem flatTally_append (above : List String) (front back : List (List String × FileNode)) :
    flatTally tree rules place above (front ++ back)
      = flatTally tree rules place above front + flatTally tree rules place above back := by
  simp [flatTally, List.filter_append, List.filterMap_append, ← Multiset.coe_add]

variable {tree rules place} {above : List String} {name : String} {node : FileNode}

/-- An entry that is excluded hides all that lies below it. -/
theorem flatTally_excluded
    (excluded : isExcluded name (pathOf (above ++ [name])) rules.patterns = true)
    (items : List (List String × FileNode)) :
    flatTally tree rules place above (items.map fun item => (name :: item.1, item.2)) = 0 := by
  have unseen : (items.map fun item => (name :: item.1, item.2)).filter
      (fun item => isSeen rules.patterns above item.1) = [] := by
    rw [List.filter_eq_nil_iff]
    intro item member
    obtain ⟨_, -, rfl⟩ := List.mem_map.mp member
    simp [isSeen, excluded]
  simp [flatTally, unseen]

section

variable (passes : isExcluded name (pathOf (above ++ [name])) rules.patterns = false)

include passes

theorem flatTally_below (items : List (List String × FileNode)) :
    flatTally tree rules place above (items.map fun item => (name :: item.1, item.2))
      = flatTally tree rules place (above ++ [name]) items := by
  simp [flatTally, List.filter_map, List.filterMap_map, List.countP_map, Function.comp_def, isSeen,
    passes]

theorem flatTally_directory (entries : List (String × FileNode)) :
    flatTally tree rules place above [([name], .directory entries)] = (0, 0, 1) := by
  simp [flatTally, isSeen, passes, recordAt?, isMinifiedAt, FileTree.fileOf?, FileNode.isDirectory]

theorem flatTally_file (noDirectory : node.isDirectory = false) :
    flatTally tree rules place above [([name], node)] =
      match tree.fileOf? (place ++ above ++ [name]) node with
      | some (bytes, modified) =>
        (Folder.entryOfFile rules (pathOf (above ++ [name])) name bytes modified).tally
      | none => 0 := by
  cases leads : tree.fileOf? (place ++ above ++ [name]) node with
  | none =>
    rw [List.append_assoc] at leads
    simp [flatTally, isSeen, passes, recordAt?, isMinifiedAt, noDirectory, leads]
  | some file =>
    rw [List.append_assoc] at leads
    simp only
    unfold Folder.entryOfFile
    split
    · next minified =>
      simp [flatTally, isSeen, passes, recordAt?, isMinifiedAt, noDirectory, leads, minified,
        FolderEntry.tally]
    · next notMinified =>
      simp [flatTally, isSeen, passes, recordAt?, isMinifiedAt, noDirectory, leads, notMinified,
        FolderEntry.tally]

end

/-! ## The descent -/

mutual

theorem tally_entryOf? (node : FileNode) (above : List String) (name : String)
    (passes : isExcluded name (pathOf (above ++ [name])) rules.patterns = false)
    (named : node.isWellNamed = true) (namedAbove : ∀ other ∈ above ++ [name], other ≠ "") :
    ((Folder.entryOf? tree rules (place ++ above) (pathOf (above ++ [name])) name node).map
        FolderEntry.tally).getD 0
      = flatTally tree rules place above [([name], node)]
        + flatTally tree rules place (above ++ [name]) node.descendants := by
  cases node with
  | directory entries =>
    obtain ⟨-, entryNames, allNamed⟩ := FileNode.isWellNamed_directory.mp named
    have descent := tally_prune entries (above ++ [name]) entryNames allNamed namedAbove
    rw [flatTally_directory passes, FileNode.descendants, ← descent, ← List.append_assoc]
    simp only [Folder.entryOf?, Option.map_some, Option.getD_some, FolderEntry.tally,
      tally_ofEntries]
  | file bytes modified =>
    rw [flatTally_file passes rfl, FileNode.descendants, flatTally_nil, add_zero]
    rfl
  | link target =>
    rw [flatTally_file passes rfl, FileNode.descendants, flatTally_nil, add_zero]
    simp only [Folder.entryOf?, FileTree.fileOf?]
    cases leads : tree.find? (place ++ above ++ [name]) with
    | none => rfl
    | some found =>
      obtain ⟨_, there⟩ := found
      cases there <;> rfl
termination_by structural node

theorem tally_prune (entries : List (String × FileNode)) (above : List String)
    (entryNames : ∀ name ∈ entries.map (·.1), isEntryName name = true)
    (named : FileNode.areWellNamed entries = true) (namedAbove : ∀ other ∈ above, other ≠ "") :
    ((Folder.prune tree rules (place ++ above) (pathOf above) entries).map (·.2.tally)).sum
      = flatTally tree rules place above (FileNode.descendantsOf entries) := by
  match entries with
  | [] => rfl
  | (name, node) :: rest =>
    obtain ⟨entryName, restNames⟩ := List.forall_mem_cons.mp entryNames
    rw [FileNode.areWellNamed, Bool.and_eq_true] at named
    have others := tally_prune rest above restNames named.2 namedAbove
    rw [Folder.prune, FileNode.descendantsOf, flatTally_append, ← others]
    simp only [childPath_pathOf namedAbove]
    split
    · next excluded =>
      -- The entry and all that lies below it begin with the excluded name.
      have hidden : flatTally tree rules place above
          ((([], node) :: node.descendants).map fun item => (name :: item.1, item.2)) = 0 :=
        flatTally_excluded excluded _
      rw [List.map_cons] at hidden
      rw [hidden, zero_add]
    · next passes =>
      have passes : isExcluded name (pathOf (above ++ [name])) rules.patterns = false := by
        simpa using passes
      have namedHere : ∀ other ∈ above ++ [name], other ≠ "" := by
        intro other member
        rcases List.mem_append.mp member with earlier | here
        · exact namedAbove other earlier
        · rw [List.mem_singleton.mp here]
          exact (isEntryName_iff.mp entryName).1
      have entry := tally_entryOf? node above name passes named.1 namedHere
      rw [← flatTally_below passes, ← flatTally_append, List.singleton_append] at entry
      rw [← entry]
      split
      · next found => rw [found, List.map_cons, List.sum_cons, Option.map_some, Option.getD_some]
      · next nothing => rw [nothing, Option.map_none, Option.getD_none, zero_add]
termination_by structural entries

end

end

/-! ## The flat list of what is seen -/

/-- The descendants of a directory that are seen. -/
def seenBelow (excluded : List String) (entries : List (String × FileNode)) :
    List (List String × FileNode) :=
  (FileNode.descendantsOf entries).filter fun item => isSeen (exclusionPatterns excluded) [] item.1

def recordsBelow (tree : FileTree) (place excluded : List String) (maxFileSize : Int)
    (entries : List (String × FileNode)) : List FileRecord :=
  (seenBelow excluded entries).filterMap fun item =>
    recordAt? tree (.excluding excluded maxFileSize) place item.1 item.2

section

variable {tree : FileTree} {place excluded : List String} {entries : List (String × FileNode)}
  (named : (FileNode.directory entries).isWellNamed = true)

include named

theorem isEntryName_of_mem_seenBelow {names : List String} {node : FileNode}
    (member : (names, node) ∈ seenBelow excluded entries) : ∀ name ∈ names, isEntryName name = true :=
  FileNode.isEntryName_of_mem_descendants named (List.mem_filter.mp member).1

theorem nodup_seenBelow : ((seenBelow excluded entries).map (·.1)).Nodup :=
  (FileNode.nodup_descendants named).sublist (List.filter_sublist.map _)

theorem mem_seenBelow_iff (here : tree.plain? place = some (.directory entries))
    {names : List String} {node : FileNode} :
    (names, node) ∈ seenBelow excluded entries ↔ names ≠ []
      ∧ tree.plain? (place ++ names) = some node ∧ IsVisible excluded names := by
  rw [seenBelow, List.mem_filter, FileTree.plain?_append here]
  show (names, node) ∈ (FileNode.directory entries).descendants ∧ _ ↔ _
  rw [FileNode.mem_descendants_iff named, and_assoc]
  refine and_congr_right fun nonempty => and_congr_right fun _ => ?_
  exact isSeen_exclusionPatterns_iff nonempty

theorem holdsFor_seenBelow (property : List String × FileNode → Bool) :
    HoldsFor ((seenBelow excluded entries).countP property) fun names =>
      ∃ node, (names, node) ∈ seenBelow excluded entries ∧ property (names, node) = true := by
  refine ⟨((seenBelow excluded entries).filter property).map (·.1), ?_, ?_, ?_⟩
  · exact (nodup_seenBelow named).sublist (List.filter_sublist.map _)
  · intro names
    simp [List.mem_filter]
  · rw [List.length_map, List.countP_eq_length_filter]

theorem tally_ofDirectory (tree : FileTree) (place excluded : List String) (maxFileSize : Int) :
    (Folder.ofDirectory tree (.excluding excluded maxFileSize) place entries).tally =
      (Multiset.ofList (recordsBelow tree place excluded maxFileSize entries),
        (seenBelow excluded entries).countP fun item => isMinifiedAt tree place item.1 item.2,
        (seenBelow excluded entries).countP fun item => item.2.isDirectory) := by
  obtain ⟨-, entryNames, allNamed⟩ := FileNode.isWellNamed_directory.mp named
  have descent : ((Folder.prune tree (.excluding excluded maxFileSize) (place ++ []) (pathOf [])
      entries).map (·.2.tally)).sum = _ := tally_prune entries [] entryNames allNamed (by simp)
  rw [List.append_nil, pathOf_nil] at descent
  rw [Folder.ofDirectory, tally_ofEntries, descent]
  rfl

end

/-! ## The catalogue -/

section

variable {tree : FileTree} {place excluded : List String} {maxFileSize : Int}
  {entries : List (String × FileNode)}

theorem recordAt?_eq_some_iff {names : List String} {node : FileNode} {record : FileRecord}
    {rules : SurveyRules} (nonempty : names ≠ []) :
    recordAt? tree rules place names node = some record ↔ ∃ name bytes modified,
      names.getLast? = some name ∧ tree.fileOf? (place ++ names) node = some (bytes, modified)
        ∧ isMinified name = false
        ∧ record = .ofFile rules.maxFileSize (pathOf names) name bytes modified := by
  obtain ⟨front, name, rfl⟩ := (List.eq_nil_or_concat names).resolve_left nonempty
  rw [List.concat_eq_append, recordAt?, Option.bind_eq_some_iff, List.getLast?_concat,
    List.getLastD_concat]
  constructor
  · rintro ⟨⟨bytes, modified⟩, leads, kept⟩
    simp only at kept
    split at kept
    · cases kept
    · next notMinified =>
      exact ⟨name, bytes, modified, rfl, leads, by simpa using notMinified,
        (Option.some.inj kept).symm⟩
  · rintro ⟨_, bytes, modified, ⟨⟩, leads, notMinified, rfl⟩
    exact ⟨(bytes, modified), leads, by simp [notMinified]⟩

theorem path_of_recordAt? {names : List String} {node : FileNode} {record : FileRecord}
    {rules : SurveyRules} (kept : recordAt? tree rules place names node = some record) :
    record.path = pathOf names := by
  obtain ⟨⟨bytes, modified⟩, -, kept⟩ := Option.bind_eq_some_iff.mp kept
  simp only at kept
  split at kept
  · cases kept
  · cases kept
    exact FileRecord.path_ofFile ..

variable (named : (FileNode.directory entries).isWellNamed = true)

include named

/-- Records are met once each, since a path tells the names that lead to a file. -/
theorem recordsBelow_paths (here : tree.plain? place = some (.directory entries)) :
    (recordsBelow tree place excluded maxFileSize entries).Pairwise fun a b => a.path ≠ b.path := by
  refine List.pairwise_filterMap.mpr ?_
  have apart : (seenBelow excluded entries).Pairwise fun a b => a.1 ≠ b.1 :=
    List.pairwise_map.mp (nodup_seenBelow named)
  refine apart.imp_of_mem ?_
  rintro ⟨names, node⟩ ⟨others, other⟩ member memberOther different record kept otherRecord
    keptOther samePath
  obtain ⟨nonempty, -⟩ := (mem_seenBelow_iff named here).mp member
  obtain ⟨nonemptyOthers, -⟩ := (mem_seenBelow_iff named here).mp memberOther
  rw [path_of_recordAt? kept, path_of_recordAt? keptOther] at samePath
  exact different (pathOf_injective nonempty nonemptyOthers
    (isEntryName_of_mem_seenBelow named member) (isEntryName_of_mem_seenBelow named memberOther)
    samePath)

theorem mem_recordsBelow_iff (here : tree.plain? place = some (.directory entries))
    {record : FileRecord} :
    record ∈ recordsBelow tree place excluded maxFileSize entries ↔ ∃ names name bytes modified,
      names.getLast? = some name ∧ IsVisible excluded names
        ∧ tree.fileAt? (place ++ names) = some (bytes, modified) ∧ isMinified name = false
        ∧ record = .ofFile maxFileSize (pathOf names) name bytes modified := by
  rw [recordsBelow, List.mem_filterMap]
  constructor
  · rintro ⟨⟨names, node⟩, member, kept⟩
    obtain ⟨nonempty, leads, visible⟩ := (mem_seenBelow_iff named here).mp member
    obtain ⟨name, bytes, modified, last, isFile, notMinified, same⟩ :=
      (recordAt?_eq_some_iff nonempty).mp kept
    refine ⟨names, name, bytes, modified, last, visible, ?_, notMinified, same⟩
    exact Option.bind_eq_some_iff.mpr ⟨node, leads, isFile⟩
  · rintro ⟨names, name, bytes, modified, last, visible, isFile, notMinified, same⟩
    have nonempty : names ≠ [] := by
      rintro rfl
      cases last
    obtain ⟨node, leads, isFile⟩ := Option.bind_eq_some_iff.mp isFile
    exact ⟨(names, node), (mem_seenBelow_iff named here).mpr ⟨nonempty, leads, visible⟩,
      (recordAt?_eq_some_iff nonempty).mpr ⟨name, bytes, modified, last, isFile, notMinified, same⟩⟩

theorem holdsFor_minified (here : tree.plain? place = some (.directory entries)) :
    HoldsFor ((seenBelow excluded entries).countP fun item => isMinifiedAt tree place item.1 item.2)
      fun names => ∃ name, names.getLast? = some name ∧ IsVisible excluded names
        ∧ (tree.fileAt? (place ++ names)).isSome = true ∧ isMinified name = true := by
  refine (holdsFor_seenBelow named _).congr fun names => ?_
  constructor
  · rintro ⟨node, member, minified⟩
    obtain ⟨nonempty, leads, visible⟩ := (mem_seenBelow_iff named here).mp member
    obtain ⟨front, name, rfl⟩ := (List.eq_nil_or_concat names).resolve_left nonempty
    rw [isMinifiedAt, Bool.and_eq_true] at minified
    refine ⟨name, by simp, visible, ?_, by simpa using minified.2⟩
    rw [FileTree.fileAt?, leads]
    exact minified.1
  · rintro ⟨name, last, visible, isFile, minified⟩
    obtain ⟨front, rfl⟩ := List.getLast?_eq_some_iff.mp last
    obtain ⟨file, isFile⟩ := Option.isSome_iff_exists.mp isFile
    obtain ⟨node, leads, isFile⟩ := Option.bind_eq_some_iff.mp isFile
    refine ⟨node, (mem_seenBelow_iff named here).mpr ⟨by simp, leads, visible⟩, ?_⟩
    simp [isMinifiedAt, isFile, minified]

theorem holdsFor_directories (here : tree.plain? place = some (.directory entries)) :
    HoldsFor ((seenBelow excluded entries).countP fun item => item.2.isDirectory) fun names =>
      names ≠ [] ∧ IsVisible excluded names
        ∧ ∃ entries, tree.plain? (place ++ names) = some (.directory entries) := by
  refine (holdsFor_seenBelow named _).congr fun names => ?_
  constructor
  · rintro ⟨node, member, isDirectory⟩
    obtain ⟨nonempty, leads, visible⟩ := (mem_seenBelow_iff named here).mp member
    cases node with
    | directory below => exact ⟨nonempty, visible, below, leads⟩
    | file _ _ | link _ => cases isDirectory
  · rintro ⟨nonempty, visible, below, leads⟩
    exact ⟨.directory below, (mem_seenBelow_iff named here).mpr ⟨nonempty, leads, visible⟩, rfl⟩

theorem keepsVisible_ofDirectory (here : tree.plain? place = some (.directory entries))
    (recent : Float) :
    Catalog.KeepsVisible tree place excluded maxFileSize
      (.ofDirectory tree (.excluding excluded maxFileSize) recent place entries) := by
  have tally := tally_ofDirectory named tree place excluded maxFileSize
  have visited : (Folder.ofDirectory tree (.excluding excluded maxFileSize) place
      entries).records.Perm (recordsBelow tree place excluded maxFileSize entries) :=
    Multiset.coe_eq_coe.mp (congrArg Prod.fst tally)
  have files := (List.mergeSort_perm _ fun a b : FileRecord => decide (a.path ≤ b.path)).trans
    visited
  refine ⟨fun record => files.mem_iff.trans (mem_recordsBelow_iff named here), ?_, ?_, ?_⟩
  · -- The order admits equal paths, which no two records have.
    have different := (files.pairwise_iff fun unequal => Ne.symm unequal).mpr
      (recordsBelow_paths named here)
    refine ((pairwise_mergeSort_key FileRecord.path _).and different).imp ?_
    rintro a b ⟨atMost, unequal⟩
    exact Std.lt_of_le_of_ne atMost unequal
  · have count : (Folder.ofDirectory tree (.excluding excluded maxFileSize) place
        entries).minifiedCount = _ := congrArg (·.2.1) tally
    show HoldsFor (Folder.minifiedCount _) _
    rw [count]
    exact holdsFor_minified named here
  · have count : (Folder.ofDirectory tree (.excluding excluded maxFileSize) place
        entries).folderCount = _ := congrArg (·.2.2) tally
    show HoldsFor (Folder.folderCount _) _
    rw [count]
    exact holdsFor_directories named here

end

namespace Catalog

/-- Dating fails at a file that was changed in a year outside of the calendar, and only there. -/
theorem datingFault?_cases (records : List FileRecord) :
    (datingFault? records = none ∧ ∀ record ∈ records, Timestamp.isDated record.time = true)
      ∨ ∃ record ∈ records, Timestamp.isDated record.time = false
        ∧ ∃ before, datingFault? records = some (.undated record.time before) := by
  rw [datingFault?, List.span_eq_takeWhile_dropWhile]
  cases later : records.dropWhile fun r => Timestamp.isDated r.time with
  | nil => exact .inl ⟨rfl, List.dropWhile_eq_nil_iff.mp later⟩
  | cons record rest =>
    refine .inr ⟨record, ?_, ?_, _, rfl⟩
    · exact (List.dropWhile_suffix _).subset (later ▸ List.mem_cons_self)
    · have stops := List.head?_dropWhile_not (fun r => Timestamp.isDated r.time) records
      simpa [later] using stops

/-- The survey of a directory keeps what a filter over everything below it would keep. It fails only
if it meets a file that was changed in a year outside of the calendar. -/
theorem survey_keeps_visible (tree : FileTree) (here : List String) (path : String)
    (excluded : List String) (maxFileSize : Int) (recentDays : Value) (now : Int)
    {place : List String} {entries : List (String × FileNode)} {recent : Float}
    (named : tree.root.isWellNamed = true)
    (isDirectory : (tree.names? here path).bind tree.find? = some (place, .directory entries))
    (span : recentSince now recentDays = .ok recent) :
    ∃ catalog : Catalog, catalog.KeepsVisible tree place excluded maxFileSize
      ∧ ((∀ record ∈ catalog.files, Timestamp.isDated record.time = true)
          ∧ survey tree here path (.excluding excluded maxFileSize) recentDays now = .ok catalog
        ∨ ∃ record ∈ catalog.files, Timestamp.isDated record.time = false ∧ ∃ before,
          survey tree here path (.excluding excluded maxFileSize) recentDays now
            = .error (.undated record.time before)) := by
  obtain ⟨names, -, found⟩ := Option.bind_eq_some_iff.mp isDirectory
  have there : tree.plain? place = some (.directory entries) := FileTree.plain?_of_walk found
  have namedThere := FileNode.isWellNamed_of_at? named there
  refine ⟨ofDirectory tree (.excluding excluded maxFileSize) recent place entries,
    keepsVisible_ofDirectory namedThere there recent, ?_⟩
  rcases datingFault?_cases (ofDirectory tree (.excluding excluded maxFileSize) recent place
    entries).visited with ⟨noFault, dated⟩ | ⟨record, met, undated, before, fault⟩
  · refine .inl ⟨fun record member => dated record (List.mem_mergeSort.mp member), ?_⟩
    simp [survey, isDirectory, span, noFault]
  · refine .inr ⟨record, List.mem_mergeSort.mpr met, undated, before, ?_⟩
    simp [survey, isDirectory, span, fault]

/-- A project with a hidden folder, an excluded one, a minified file, and links to a file and to a
folder. -/
def linkedEntries : List (String × FileNode) :=
  [("app.js", .file .empty 0), (".git", .directory [("head.js", .file .empty 0)]),
    ("vendor", .directory [("old.js", .file .empty 0)]),
    ("lib", .directory [("app.min.js", .file .empty 0), ("main.js", .link "../app.js")]),
    ("shortcut", .link "lib")]

def linkedProject : FileTree := ⟨"/srv", .directory [("project", .directory linkedEntries)]⟩

theorem linkedProject_surveyed :
    linkedProject.root.isWellNamed = true
      ∧ ∃ catalog : Catalog, catalog.KeepsVisible linkedProject ["project"] [" vendor "] 5242880
        ∧ ((∀ record ∈ catalog.files, Timestamp.isDated record.time = true)
            ∧ survey linkedProject [] "project" (.excluding [" vendor "] 5242880) (.int 7) 0
              = .ok catalog
          ∨ ∃ record ∈ catalog.files, Timestamp.isDated record.time = false ∧ ∃ before,
            survey linkedProject [] "project" (.excluding [" vendor "] 5242880) (.int 7) 0
              = .error (.undated record.time before)) := by
  have named : linkedProject.root.isWellNamed = true := by decide +kernel
  have isDirectory : (linkedProject.names? [] "project").bind linkedProject.find?
      = some (["project"], .directory linkedEntries) := by rfl
  have span : recentSince 0 (.int 7)
      = .ok (quotient 0 1000000 - quotient 604800000000 1000000) := by rfl
  exact ⟨named, survey_keeps_visible linkedProject [] "project" [" vendor "] 5242880 (.int 7) 0 named
    isDirectory span⟩

end Catalog

end Surveyor
