import Surveyor.Proofs.Catalog.Survey

/-! # A folder, place by place

The `Folder.holdings` of a folder are the files in it and in every folder below, each time with the
names that lead there. Records and folders are counted place by place, whatever their order
(`records_eq_flatMap`, `length_holdings`).

A survey of a tree whose directories name each entry once meets every place once
(`IsPlaced.nodup_holdings`), and every file under the path of its place (`IsPlaced.path_of_mem`).
-/

namespace Surveyor

namespace Folder

def name : Folder → String
  | .mk name _ _ _ => name

/-- Induction over a folder, all folders in it being known. -/
@[elab_as_elim]
theorem induction {motive : Folder → Prop}
    (mk : ∀ name files minified folders, (∀ f ∈ folders, motive f) →
      motive (.mk name files minified folders)) (f : Folder) : motive f := by
  match f with
  | .mk name files minified folders => exact mk name files minified folders fun f _ => induction mk f
termination_by sizeOf f

mutual

/-- The files of a folder at names and of the folders below, with the names that lead there. -/
def holdings (names : List String) : Folder → List (List String × List FileRecord)
  | .mk _ files _ folders => (names, files) :: holdingsOfAll names folders

def holdingsOfAll (names : List String) : List Folder → List (List String × List FileRecord)
  | [] => []
  | f :: rest => holdings (names ++ [f.name]) f ++ holdingsOfAll names rest

end

/-! ## Folders of a folder -/

section

variable (folders : List Folder)

theorem holdingsOfAll_eq (names : List String) :
    holdingsOfAll names folders = folders.flatMap fun f => f.holdings (names ++ [f.name]) := by
  induction folders with
  | nil => rfl
  | cons f rest inductionHypothesis =>
    rw [holdingsOfAll, inductionHypothesis, List.flatMap_cons]

theorem mem_holdings_mk {names : List String} {name : String} {files : List FileRecord}
    {minified : Nat} {folders : List Folder} {holding : List String × List FileRecord} :
    holding ∈ (Folder.mk name files minified folders).holdings names ↔
      holding = (names, files) ∨ ∃ f ∈ folders, holding ∈ f.holdings (names ++ [f.name]) := by
  rw [holdings, holdingsOfAll_eq, List.mem_cons, List.mem_flatMap]

theorem holdings_eq_cons (names : List String) (f : Folder) :
    ∃ files, f.holdings names = (names, files) :: (f.holdings names).tail := by
  cases f with
  | mk name files minified folders => exact ⟨files, by simp [holdings]⟩

theorem recordsOfAll_eq : recordsOfAll folders = folders.flatMap records := by
  induction folders with
  | nil => rfl
  | cons f rest inductionHypothesis => rw [recordsOfAll, inductionHypothesis, List.flatMap_cons]

theorem folderCountOfAll_eq : folderCountOfAll folders = (folders.map (1 + ·.folderCount)).sum := by
  induction folders with
  | nil => rfl
  | cons f rest inductionHypothesis =>
    rw [folderCountOfAll, inductionHypothesis, List.map_cons, List.sum_cons]

end

theorem records_eq_flatMap (names : List String) (f : Folder) :
    f.records = (f.holdings names).flatMap (·.2) := by
  induction f using Folder.induction generalizing names with
  | mk name files minified folders inductionHypothesis =>
    rw [records, holdings, recordsOfAll_eq, holdingsOfAll_eq, List.flatMap_cons, List.flatMap_assoc]
    congr 1
    exact List.flatMap_congr fun f member => inductionHypothesis f member _

theorem length_holdings (names : List String) (f : Folder) :
    (f.holdings names).length = f.folderCount + 1 := by
  induction f using Folder.induction generalizing names with
  | mk name files minified folders inductionHypothesis =>
    rw [holdings, folderCount, folderCountOfAll_eq, holdingsOfAll_eq, List.length_cons,
      List.length_flatMap]
    congr 2
    refine List.map_congr_left fun f member => ?_
    rw [inductionHypothesis f member, Nat.add_comm]

/-! ## Placed folders -/

/-- The folder stands at the names: its files have the paths of their places, no two of its folders
have the same name, and they stand at their places again. All places meet a condition. -/
inductive IsPlaced (shown : List String → Prop) : List String → Folder → Prop
  | mk {names : List String} {name : String} {files : List FileRecord} {minified : Nat}
      {folders : List Folder}
      (filesShown : ∀ r ∈ files, shown (names ++ [r.name]) ∧ r.path = pathOf (names ++ [r.name]))
      (foldersShown : ∀ f ∈ folders, shown (names ++ [f.name]))
      (placed : ∀ f ∈ folders, IsPlaced shown (names ++ [f.name]) f)
      (once : (folders.map Folder.name).Nodup) :
      IsPlaced shown names (.mk name files minified folders)

namespace IsPlaced

variable {shown : List String → Prop} {names : List String} {f : Folder}

theorem prefix_of_mem (placed : f.IsPlaced shown names) {holding : List String × List FileRecord}
    (member : holding ∈ f.holdings names) : names <+: holding.1 := by
  induction placed with
  | mk _ _ _ _ inductionHypothesis =>
    rcases mem_holdings_mk.mp member with rfl | ⟨f, inFolders, below⟩
    · exact List.prefix_rfl
    · exact (List.prefix_append _ _).trans (inductionHypothesis f inFolders below)

theorem shown_of_mem_tail (placed : f.IsPlaced shown names) {holding : List String × List FileRecord}
    (member : holding ∈ (f.holdings names).tail) : shown holding.1 := by
  induction placed with
  | mk _ foldersShown _ _ inductionHypothesis =>
    rw [holdings, holdingsOfAll_eq, List.tail_cons] at member
    obtain ⟨f, inFolders, inHoldings⟩ := List.mem_flatMap.mp member
    obtain ⟨files, isFirst⟩ := holdings_eq_cons _ f
    rw [isFirst] at inHoldings
    rcases List.mem_cons.mp inHoldings with rfl | below
    · exact foldersShown f inFolders
    · exact inductionHypothesis f inFolders below

/-- Every file that is held somewhere has the path of its place. -/
theorem path_of_mem (placed : f.IsPlaced shown names) {holding : List String × List FileRecord}
    (member : holding ∈ f.holdings names) :
    ∀ r ∈ holding.2, shown (holding.1 ++ [r.name]) ∧ r.path = pathOf (holding.1 ++ [r.name]) := by
  induction placed with
  | mk filesShown _ _ _ inductionHypothesis =>
    rcases mem_holdings_mk.mp member with rfl | ⟨f, inFolders, below⟩
    · exact filesShown
    · exact inductionHypothesis f inFolders below

theorem nodup_holdings (placed : f.IsPlaced shown names) :
    ((f.holdings names).map (·.1)).Nodup := by
  induction placed with
  | @mk names name files minified folders _ _ placed once inductionHypothesis =>
    rw [holdings, holdingsOfAll_eq, List.map_cons, List.map_flatMap, List.nodup_cons]
    constructor
    · intro again
      obtain ⟨f, inFolders, inHoldings⟩ := List.mem_flatMap.mp again
      obtain ⟨holding, member, same : holding.1 = names⟩ := List.mem_map.mp inHoldings
      have longer := ((placed f inFolders).prefix_of_mem member).length_le
      rw [same, List.length_append, List.length_singleton] at longer
      omega
    · rw [List.nodup_flatMap]
      refine ⟨inductionHypothesis, (List.pairwise_map.mp once).imp_of_mem ?_⟩
      intro f g inFolders inFoldersToo different place underF underG
      obtain ⟨holding, member, rfl⟩ := List.mem_map.mp underF
      obtain ⟨other, memberOther, same⟩ := List.mem_map.mp underG
      have leads := (placed f inFolders).prefix_of_mem member
      have leadsToo := (placed g inFoldersToo).prefix_of_mem memberOther
      rw [same] at leadsToo
      -- Both go on with one name, so one of them is the other.
      have sameNames := List.prefix_of_prefix_length_le leads leadsToo (by simp)
      exact different (by simpa using sameNames)

end IsPlaced

end Folder

/-! ## What a survey makes -/

/-- An entry with its name, met in the folder at names, stands at its place. -/
def FolderEntry.IsPlaced (shown : List String → Prop) (names : List String) (name : String) :
    FolderEntry → Prop
  | .folder f => f.name = name ∧ shown (names ++ [name]) ∧ f.IsPlaced shown (names ++ [name])
  | .file r => r.name = name ∧ shown (names ++ [name]) ∧ r.path = pathOf (names ++ [name])
  | .minified => True

namespace Folder

variable {shown : List String → Prop}

/-- The names of the folders among entries, in the order of the entries. -/
theorem names_sublist {names : List String} {entries : List (String × FolderEntry)}
    (placed : ∀ entry ∈ entries, entry.2.IsPlaced shown names entry.1) :
    (((entries.map (·.2)).filterMap fun
      | .folder f => some f
      | _ => none).map Folder.name).Sublist (entries.map (·.1)) := by
  induction entries with
  | nil => exact List.Sublist.refl _
  | cons entry rest inductionHypothesis =>
    obtain ⟨here, later⟩ := List.forall_mem_cons.mp placed
    have shorter := inductionHypothesis later
    obtain ⟨entryName, entry⟩ := entry
    cases entry with
    | folder f =>
      obtain ⟨rfl, -⟩ := here
      exact shorter.cons_cons f.name
    | file _ | minified => exact shorter.cons entryName

theorem isPlaced_ofEntries {names : List String} {entries : List (String × FolderEntry)}
    (name : String) (once : (entries.map (·.1)).Nodup)
    (placed : ∀ entry ∈ entries, entry.2.IsPlaced shown names entry.1) :
    (ofEntries name entries).IsPlaced shown names := by
  -- Sorting neither adds an entry nor repeats a name.
  have sortedPlaced : ∀ entry ∈ sortEntries entries, entry.2.IsPlaced shown names entry.1 :=
    fun entry member => placed entry (List.mem_mergeSort.mp member)
  have sortedOnce : ((sortEntries entries).map (·.1)).Nodup :=
    ((List.mergeSort_perm entries _).map _).nodup_iff.mpr once
  have ofFile : ∀ r, .file r ∈ (sortEntries entries).map (·.2) →
      shown (names ++ [r.name]) ∧ r.path = pathOf (names ++ [r.name]) := by
    intro r member
    obtain ⟨⟨_, _⟩, inSorted, rfl⟩ := List.mem_map.mp member
    obtain ⟨rfl, isShown⟩ := sortedPlaced _ inSorted
    exact isShown
  have ofFolder : ∀ f, .folder f ∈ (sortEntries entries).map (·.2) →
      shown (names ++ [f.name]) ∧ f.IsPlaced shown (names ++ [f.name]) := by
    intro f member
    obtain ⟨⟨_, _⟩, inSorted, rfl⟩ := List.mem_map.mp member
    obtain ⟨rfl, isShown⟩ := sortedPlaced _ inSorted
    exact isShown
  have mem_folders : ∀ f, f ∈ ((sortEntries entries).map (·.2)).filterMap (fun
      | .folder f => some f
      | _ => none) → .folder f ∈ (sortEntries entries).map (·.2) := by
    intro f member
    obtain ⟨entry, inSorted, isFolder⟩ := List.mem_filterMap.mp member
    cases entry with
    | folder _ =>
      cases isFolder
      exact inSorted
    | file _ | minified => cases isFolder
  refine .mk ?_ ?_ ?_ (sortedOnce.sublist (names_sublist sortedPlaced))
  · intro r member
    obtain ⟨entry, inSorted, isFile⟩ := List.mem_filterMap.mp member
    cases entry with
    | file _ =>
      cases isFile
      exact ofFile r inSorted
    | folder _ | minified => cases isFile
  · exact fun f member => (ofFolder f (mem_folders f member)).1
  · exact fun f member => (ofFolder f (mem_folders f member)).2

variable {tree : FileTree} {rules : SurveyRules}

theorem isPlaced_entryOfFile {names : List String} {name : String} (isShown : shown (names ++ [name]))
    (bytes : ByteArray) (modified : Int) :
    (entryOfFile rules (pathOf (names ++ [name])) name bytes modified).IsPlaced shown names name := by
  unfold entryOfFile
  split
  · trivial
  · exact ⟨FileRecord.name_ofFile .., isShown, FileRecord.path_ofFile ..⟩

theorem names_prune (place : List String) (parent : String) (entries : List (String × FileNode)) :
    ((prune tree rules place parent entries).map (·.1)).Sublist (entries.map (·.1)) := by
  induction entries with
  | nil =>
    rw [prune]
    exact List.Sublist.refl _
  | cons entry rest inductionHypothesis =>
    obtain ⟨name, node⟩ := entry
    rw [prune]
    split
    · exact inductionHypothesis.cons name
    · split
      · exact inductionHypothesis.cons_cons name
      · exact inductionHypothesis.cons name

mutual

theorem isPlaced_entryOf? (node : FileNode) (place above : List String) (name : String)
    (named : node.isWellNamed = true) (namedAbove : ∀ other ∈ above ++ [name], other ≠ "")
    (isShown : shown (above ++ [name]))
    (seen : ∀ item ∈ node.descendants, isSeen rules.patterns (above ++ [name]) item.1 = true →
      shown (above ++ [name] ++ item.1)) {entry : FolderEntry}
    (found : entryOf? tree rules place (pathOf (above ++ [name])) name node = some entry) :
    entry.IsPlaced shown above name := by
  cases node with
  | directory entries =>
    cases found
    obtain ⟨once, entryNames, allNamed⟩ := FileNode.isWellNamed_directory.mp named
    refine ⟨rfl, isShown, isPlaced_ofEntries name (once.sublist (names_prune _ _ entries)) ?_⟩
    exact isPlaced_prune entries (place ++ [name]) (above ++ [name]) entryNames allNamed namedAbove seen
  | file bytes modified =>
    cases found
    exact isPlaced_entryOfFile isShown bytes modified
  | link target =>
    -- A link is taken for the file it leads to, under its own name.
    rw [entryOf?] at found
    split at found
    · next bytes modified _ =>
      cases found
      exact isPlaced_entryOfFile isShown bytes modified
    · cases found
termination_by structural node

theorem isPlaced_prune (entries : List (String × FileNode)) (place above : List String)
    (entryNames : ∀ name ∈ entries.map (·.1), isEntryName name = true)
    (named : FileNode.areWellNamed entries = true) (namedAbove : ∀ other ∈ above, other ≠ "")
    (seen : ∀ item ∈ FileNode.descendantsOf entries, isSeen rules.patterns above item.1 = true →
      shown (above ++ item.1)) :
    ∀ entry ∈ prune tree rules place (pathOf above) entries, entry.2.IsPlaced shown above entry.1 := by
  match entries with
  | [] =>
    intro entry member
    cases member
  | (name, node) :: rest =>
    obtain ⟨entryName, restNames⟩ := List.forall_mem_cons.mp entryNames
    rw [FileNode.areWellNamed, Bool.and_eq_true] at named
    rw [FileNode.descendantsOf, List.forall_mem_append, List.forall_mem_cons,
      List.forall_mem_map] at seen
    obtain ⟨⟨seenHere, seenBelow⟩, seenLater⟩ := seen
    have others := isPlaced_prune rest place above restNames named.2 namedAbove seenLater
    intro entry member
    rw [prune] at member
    simp only [childPath_pathOf namedAbove] at member
    -- The first entry is left out or is placed here; the others are placed either way.
    split at member
    · exact others entry member
    · next passes =>
      have passes : isExcluded name (pathOf (above ++ [name])) rules.patterns = false := by
        simpa using passes
      split at member
      · next contributed found =>
        rcases List.mem_cons.mp member with rfl | later
        · refine isPlaced_entryOf? node place above name named.1 ?_ (seenHere ?_) ?_ found
          · intro other member
            rcases List.mem_append.mp member with earlier | here
            · exact namedAbove other earlier
            · rw [List.mem_singleton.mp here]
              exact (isEntryName_iff.mp entryName).1
          · simp [isSeen, passes]
          · intro item below isSeenBelow
            have further := seenBelow item below
            rw [List.append_assoc, List.singleton_append]
            exact further (by simp [isSeen, passes, isSeenBelow])
        · exact others entry later
      · exact others entry member
termination_by structural entries

end

/-- The folder of a directory stands at its place, and all in it was seen. -/
theorem isPlaced_ofDirectory {entries : List (String × FileNode)}
    (named : (FileNode.directory entries).isWellNamed = true) (tree : FileTree)
    (place excluded : List String) (maxFileSize : Int) :
    (ofDirectory tree (.excluding excluded maxFileSize) place entries).IsPlaced
      (fun names => ∃ node, (names, node) ∈ seenBelow excluded entries) [] := by
  obtain ⟨once, entryNames, allNamed⟩ := FileNode.isWellNamed_directory.mp named
  refine isPlaced_ofEntries "" (once.sublist (names_prune place "" entries)) ?_
  refine isPlaced_prune entries place [] entryNames allNamed (by simp) ?_
  exact fun item member isSeen => ⟨item.2, List.mem_filter.mpr ⟨member, isSeen⟩⟩

end Folder

end Surveyor
