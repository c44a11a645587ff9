import Mathlib.Data.List.Forall2
import Surveyor.Proofs.Catalog.Holdings

/-! # Reading a rendered tree

A line of a rendered tree can be read without knowing what it was made of: behind the branches stands
the name of a folder with a slash, the number of the assets of a folder, or the name of a file
(`TreeLine.read?`). No name is taken for one of the others, as names hold no slash and a name that
starts with dots is hidden.

The lines of a folder are drawn from their `Folder.labels` (`forall₂_treeLines`), which are those of its
holdings in another order (`labels_perm`).
-/

namespace Surveyor

/-! ## Lines of a text -/

theorem Text.splitChars_eq_splitOn (separator : Char) (chars : List Char) :
    Text.splitChars separator chars = chars.splitOn separator := by
  induction chars with
  | nil => rfl
  | cons c rest inductionHypothesis =>
    rw [Text.splitChars] at inductionHypothesis ⊢
    rw [List.foldr_cons, inductionHypothesis, List.splitOn, List.splitOn,
      List.splitOnP_cons_eq_if_modifyHead]
    split
    · rfl
    · cases parts : rest.splitOnP (· == separator) with
      | nil => exact absurd parts (List.splitOnP_ne_nil _ _)
      | cons part others => rfl

/-- Lines without breaks in them are the lines of the text that they make. -/
theorem Text.split_join {lines : List String} (nonempty : lines ≠ [])
    (unbroken : ∀ line ∈ lines, '\n' ∉ line.toList) :
    Text.split '\n' (Text.join "\n" lines) = lines := by
  have chars : (Text.join "\n" lines).toList = ['\n'].intercalate (lines.map String.toList) :=
    String.toList_intercalate
  rw [Text.split, Text.splitChars_eq_splitOn, chars, List.splitOn_intercalate]
  · simp
  · simpa using unbroken
  · simpa using nonempty

/-- What a line of a rendered tree stands for. -/
inductive TreeLine where
  | folder
  | file
  | assets (count : Nat)
  deriving DecidableEq, Repr

namespace TreeLine

/-- What stands in a line behind the branches. -/
def label? : List Char → Option (List Char)
  | '│' :: ' ' :: ' ' :: ' ' :: rest => label? rest
  | ' ' :: ' ' :: ' ' :: ' ' :: rest => label? rest
  | '├' :: '─' :: '─' :: ' ' :: label => some label
  | '└' :: '─' :: '─' :: ' ' :: label => some label
  | _ => none

def ofLabel (label : List Char) : TreeLine :=
  let count := Nat.ofDigitChars 10 ((label.drop 4).takeWhile Char.isDigit) 0
  if label = (Folder.assetLine count).toList then .assets count
  else if label.getLast? = some '/' then .folder
  else .file

def read? (line : String) : Option TreeLine := (label? line.toList).map ofLabel

/-- The lines of a text; an empty text has none. -/
def readText (text : String) : List TreeLine := (Text.split '\n' text).filterMap read?

def count? : TreeLine → Option Nat
  | .assets count => some count
  | _ => none

theorem readText_join {lines : List String} (unbroken : ∀ line ∈ lines, '\n' ∉ line.toList) :
    readText (Text.join "\n" lines) = lines.filterMap read? := by
  by_cases nonempty : lines = []
  · rw [nonempty]
    rfl
  · rw [readText, Text.split_join nonempty unbroken]

/-! ## Labels -/

theorem toList_assetLine (count : Nat) : ∃ after, (Folder.assetLine count).toList
    = '.' :: '.' :: '.' :: ' ' :: (Nat.toDigits 10 count ++ ' ' :: after) := by
  refine ⟨("asset file" ++ (if count == 1 then "" else "s") ++ " (images, fonts, media)").toList, ?_⟩
  simp only [Folder.assetLine, String.toList_append, Nat.toString_eq_repr, Nat.toList_repr,
    List.append_assoc]
  rfl

theorem ofLabel_assetLine (count : Nat) : ofLabel (Folder.assetLine count).toList = .assets count := by
  have digits : ∀ c ∈ Nat.toDigits 10 count, c.isDigit = true :=
    fun c => Nat.isDigit_of_mem_toDigits (by decide) (by decide)
  obtain ⟨after, chars⟩ := toList_assetLine count
  have number : ((Folder.assetLine count).toList.drop 4).takeWhile Char.isDigit
      = Nat.toDigits 10 count := by
    rw [chars]
    show (Nat.toDigits 10 count ++ ' ' :: after).takeWhile Char.isDigit = _
    rw [List.takeWhile_append_of_pos digits, List.takeWhile_cons_of_neg (by decide), List.append_nil]
  rw [ofLabel, number, Nat.ofDigitChars_toDigits (by decide) (by decide)]
  simp

def IsShownName (name : String) : Prop := isEntryName name = true ∧ isHidden name = false

namespace IsShownName

variable {name : String}

/-- A line of assets starts with dots, as no name does that is shown. -/
theorem ne_assetLine (isShown : IsShownName name) (ending : String) (count : Nat) :
    (name ++ ending).toList ≠ (Folder.assetLine count).toList := by
  intro same
  obtain ⟨entryName, notHidden⟩ := isShown
  obtain ⟨first, rest, chars⟩ : ∃ first rest, name.toList = first :: rest :=
    List.exists_cons_of_ne_nil (by simpa using (isEntryName_iff.mp entryName).1)
  obtain ⟨after, dots⟩ := toList_assetLine count
  rw [String.toList_append, chars, dots, List.cons_append, List.cons.injEq] at same
  obtain ⟨rfl, further⟩ := same
  -- Of the dotted names only those that go on with a letter are not hidden.
  simp only [isHidden, Text.hasPrefix, chars] at notHidden
  cases rest with
  | nil => exact absurd notHidden (by decide)
  | cons second rest =>
    rw [List.cons_append, List.cons.injEq] at further
    obtain ⟨rfl, -⟩ := further
    exact absurd notHidden (by simp +decide)

theorem ofLabel_folder (isShown : IsShownName name) : ofLabel (name ++ "/").toList = .folder := by
  simp only [ofLabel, if_neg (isShown.ne_assetLine "/" _)]
  rw [if_pos]
  simp

theorem ofLabel_file (isShown : IsShownName name) {ending : String}
    (noSlash : ending = "" ∨ ending.toList.getLast? = some ')') :
    ofLabel (name ++ ending).toList = .file := by
  simp only [ofLabel, if_neg (isShown.ne_assetLine ending _)]
  rw [if_neg]
  intro slash
  rcases noSlash with rfl | closed
  · rw [String.append_empty] at slash
    exact (isEntryName_iff.mp isShown.1).2 (List.mem_of_getLast? slash)
  · rw [String.toList_append, List.getLast?_append, closed, Option.some_or] at slash
    exact absurd slash (by decide)

end IsShownName

/-! ## Files -/

theorem unbroken_toDigits (n : Nat) : '\n' ∉ Nat.toDigits 10 n := fun member =>
  absurd (Nat.isDigit_of_mem_toDigits (by decide) (by decide) member) (by decide)

theorem unbroken_shortText (time : Int) : '\n' ∉ (Timestamp.shortText time).toList := by
  have padded : ∀ width n, '\n' ∉ (Timestamp.padded width n).toList := by
    intro width n
    simp [Timestamp.padded, unbroken_toDigits]
  have year : ∀ n : Int, '\n' ∉ n.repr.toList := by
    intro n
    cases n with
    | ofNat n =>
      show '\n' ∉ n.repr.toList
      rw [Nat.toList_repr]
      exact unbroken_toDigits n
    | negSucc n =>
      show '\n' ∉ ("-" ++ n.succ.repr).toList
      rw [String.toList_append, Nat.toList_repr]
      simp [unbroken_toDigits]
  simp [Timestamp.shortText, String.toList_append, padded, year]

/-- Behind the name of a file stands nothing or a date in brackets. -/
theorem exists_fileLine (recentSince : Float) (r : FileRecord) :
    ∃ ending, Folder.fileLine recentSince r = r.name ++ ending ∧ '\n' ∉ ending.toList
      ∧ (ending = "" ∨ ending.toList.getLast? = some ')') := by
  unfold Folder.fileLine
  split
  · exact ⟨"", by simp, by simp, .inl rfl⟩
  · refine ⟨" (" ++ Timestamp.shortText r.time ++ ")", by simp [String.append_assoc], ?_, .inr ?_⟩
    · simp [String.toList_append, unbroken_shortText]
    · rw [String.toList_append]
      exact List.getLast?_concat

theorem unbroken_assetLine (count : Nat) : '\n' ∉ (Folder.assetLine count).toList := by
  simp only [Folder.assetLine, String.toList_append, Nat.toString_eq_repr, Nat.toList_repr,
    List.mem_append, unbroken_toDigits]
  split <;> decide

end TreeLine

def assetCount (files : List FileRecord) : Nat := files.countP fun r => !isListed r.extension

namespace TreeLine

def ofFiles (files : List FileRecord) : List TreeLine :=
  List.replicate (files.countP fun r => isListed r.extension) TreeLine.file
    ++ (if assetCount files = 0 then [] else [TreeLine.assets (assetCount files)])

def ofHoldings (folderCount : Nat) (holdings : List (List String × List FileRecord)) :
    List TreeLine :=
  List.replicate folderCount TreeLine.folder ++ holdings.flatMap fun holding => ofFiles holding.2

theorem ofLabel_fileLines (recentSince : Float) {files : List FileRecord}
    (shown : ∀ r ∈ files, IsShownName r.name) :
    (Folder.fileLines recentSince files).map (fun label => ofLabel label.toList) = ofFiles files := by
  have listed : ((files.filter fun r => isListed r.extension).map (Folder.fileLine recentSince)).map
      (fun label => ofLabel label.toList)
        = List.replicate (files.countP fun r => isListed r.extension) .file := by
    rw [List.map_map, List.countP_eq_length_filter, ← List.map_const']
    refine List.map_congr_left fun r member => ?_
    obtain ⟨ending, line, -, noSlash⟩ := exists_fileLine recentSince r
    rw [Function.comp_apply, line]
    exact (shown r (List.mem_filter.mp member).1).ofLabel_file noSlash
  rw [Folder.fileLines, List.map_append, listed, ofFiles]
  congr 1
  simp only [beq_iff_eq]
  show List.map _ (if assetCount files = 0 then [] else [Folder.assetLine (assetCount files)]) = _
  split
  · rfl
  · rw [List.map_singleton, ofLabel_assetLine]

theorem unbroken_fileLines (recentSince : Float) {files : List FileRecord}
    (unbroken : ∀ r ∈ files, '\n' ∉ r.name.toList) :
    ∀ label ∈ Folder.fileLines recentSince files, '\n' ∉ label.toList := by
  intro label member
  rcases List.mem_append.mp member with ofListed | ofAssets
  · obtain ⟨r, isListed, rfl⟩ := List.mem_map.mp ofListed
    obtain ⟨ending, line, endingUnbroken, -⟩ := exists_fileLine recentSince r
    rw [line, String.toList_append, List.mem_append, not_or]
    exact ⟨unbroken r (List.mem_filter.mp isListed).1, endingUnbroken⟩
  · split at ofAssets
    · cases ofAssets
    · rw [List.mem_singleton.mp ofAssets]
      exact unbroken_assetLine _

/-! ## Drawing -/

/-- The line is drawn from the label: it has branches in front of it. -/
structure IsDrawn (line label : String) : Prop where
  reads : label? line.toList = some label.toList
  unbroken : '\n' ∉ label.toList → '\n' ∉ line.toList

theorem filterMap_read? {lines labels : List String} (drawn : List.Forall₂ IsDrawn lines labels) :
    lines.filterMap read? = labels.map fun label => ofLabel label.toList := by
  induction drawn with
  | nil => rfl
  | cons isDrawn _ inductionHypothesis =>
    rw [List.filterMap_cons, read?, isDrawn.reads, inductionHypothesis]
    rfl

theorem unbroken_of_drawn {lines labels : List String} (drawn : List.Forall₂ IsDrawn lines labels)
    (unbroken : ∀ label ∈ labels, '\n' ∉ label.toList) : ∀ line ∈ lines, '\n' ∉ line.toList := by
  induction drawn with
  | nil => exact unbroken
  | cons isDrawn _ inductionHypothesis =>
    obtain ⟨here, later⟩ := List.forall_mem_cons.mp unbroken
    exact List.forall_mem_cons.mpr ⟨isDrawn.unbroken here, inductionHypothesis later⟩

/-- Branches that lines go on from. -/
structure IsLead (lead : String) : Prop where
  skipped : ∀ chars, label? (lead.toList ++ chars) = label? chars
  unbroken : '\n' ∉ lead.toList

theorem isLead_empty : IsLead "" := ⟨fun _ => rfl, by decide⟩

namespace IsLead

variable {lead : String} (isLead : IsLead lead)

include isLead

/-- The branches below a folder, the last one or not. -/
theorem below (isLast : Bool) : IsLead (lead ++ (if isLast then "    " else "│   ")) := by
  constructor
  · intro chars
    rw [String.toList_append, List.append_assoc, isLead.skipped]
    cases isLast <;> rfl
  · rw [String.toList_append, List.mem_append, not_or]
    refine ⟨isLead.unbroken, ?_⟩
    cases isLast <;> decide

theorem isDrawn (isLast : Bool) (label : String) :
    IsDrawn (lead ++ (if isLast then "└── " else "├── ") ++ label) label := by
  constructor
  · rw [String.toList_append, String.toList_append, List.append_assoc, isLead.skipped]
    cases isLast <;> rfl
  · intro labelUnbroken
    rw [String.toList_append, String.toList_append, List.mem_append, List.mem_append, not_or, not_or]
    refine ⟨⟨isLead.unbroken, ?_⟩, labelUnbroken⟩
    cases isLast <;> decide

theorem forall₂_leafLines (labels : List String) :
    List.Forall₂ IsDrawn (Folder.leafLines lead labels) labels := by
  fun_induction Folder.leafLines lead labels with
  | case1 => exact .nil
  | case2 label => exact .cons (isLead.isDrawn true label) .nil
  | case3 label rest _ inductionHypothesis =>
    exact .cons (isLead.isDrawn false label) inductionHypothesis

end IsLead

end TreeLine

namespace Folder

open TreeLine

variable (recentSince : Float)

mutual

/-- What stands in the lines of a folder behind the branches. -/
def labels : Folder → List String
  | .mk _ files _ folders => labelsOfAll folders ++ fileLines recentSince files

def labelsOfAll : List Folder → List String
  | [] => []
  | f :: rest => (f.name ++ "/") :: (labels f ++ labelsOfAll rest)

end

mutual

theorem forall₂_treeLines (f : Folder) {lead : String} (isLead : IsLead lead) :
    List.Forall₂ IsDrawn (f.treeLines recentSince lead) (f.labels recentSince) := by
  match f with
  | .mk _ files _ folders =>
    rw [treeLines, labels]
    exact List.rel_append (forall₂_folderLines folders isLead _) (isLead.forall₂_leafLines _)
termination_by structural f

theorem forall₂_folderLines (folders : List Folder) {lead : String} (isLead : IsLead lead)
    (isEnd : Bool) :
    List.Forall₂ IsDrawn (folderLines recentSince lead isEnd folders)
      (labelsOfAll recentSince folders) := by
  match folders with
  | [] =>
    rw [folderLines, labelsOfAll]
    exact .nil
  | .mk name files minified folders :: rest =>
    rw [folderLines, labelsOfAll]
    refine .cons ?_ (List.rel_append (forall₂_treeLines _ (isLead.below _))
      (forall₂_folderLines rest isLead isEnd))
    rw [String.append_assoc]
    exact isLead.isDrawn _ _
termination_by structural folders

end

theorem labelsOfAll_eq (folders : List Folder) :
    labelsOfAll recentSince folders
      = folders.flatMap fun f => (f.name ++ "/") :: f.labels recentSince := by
  induction folders with
  | nil => rfl
  | cons f rest inductionHypothesis =>
    rw [labelsOfAll, inductionHypothesis, List.flatMap_cons, List.cons_append]

def folderLabel (holding : List String × List FileRecord) : String := holding.1.getLastD "" ++ "/"

theorem labels_perm (f : Folder) (names : List String) :
    (f.labels recentSince).Perm (((f.holdings names).tail.map folderLabel)
      ++ (f.holdings names).flatMap fun holding => fileLines recentSince holding.2) := by
  induction f using Folder.induction generalizing names with
  | mk name files minified folders inductionHypothesis =>
    -- The line of a folder itself goes with its place, the lines below it are known.
    have ofFolder : ∀ f ∈ folders, ((f.name ++ "/") :: f.labels recentSince).Perm
        ((f.holdings (names ++ [f.name])).map folderLabel
          ++ (f.holdings (names ++ [f.name])).flatMap fun holding => fileLines recentSince holding.2) := by
      intro f member
      obtain ⟨files, isFirst⟩ := holdings_eq_cons (names ++ [f.name]) f
      refine ((inductionHypothesis f member (names ++ [f.name])).cons _).trans ?_
      rw [isFirst]
      simp [folderLabel]
    rw [labels, labelsOfAll_eq, holdings, holdingsOfAll_eq, List.tail_cons, List.map_flatMap,
      List.flatMap_cons, List.flatMap_assoc]
    -- In the tree each folder is followed by its files; here all folders come first.
    refine ((List.Perm.flatMap_left folders ofFolder).append_right _).trans ?_
    refine ((List.flatMap_append_perm folders _ _).symm.append_right _).trans ?_
    rw [List.append_assoc]
    exact List.perm_append_comm.append_left _

section

variable {shown : List String → Prop} {names : List String} {f : Folder}
  (placed : f.IsPlaced shown names)

include placed

theorem read?_treeLines (isShown : ∀ names, shown names → IsShownName (names.getLastD "")) :
    ((f.treeLines recentSince "").filterMap read?).Perm
      (ofHoldings f.folderCount (f.holdings names)) := by
  rw [filterMap_read? (forall₂_treeLines recentSince f isLead_empty)]
  refine ((labels_perm recentSince f names).map _).trans ?_
  rw [List.map_append, List.map_map, List.map_flatMap]
  have ofFolders : (f.holdings names).tail.map
      ((fun label => ofLabel label.toList) ∘ folderLabel) = List.replicate f.folderCount .folder := by
    have count : (f.holdings names).tail.length = f.folderCount := by
      rw [List.length_tail, length_holdings, Nat.add_sub_cancel]
    rw [← count, ← List.map_const']
    exact List.map_congr_left fun holding member =>
      (isShown _ (placed.shown_of_mem_tail member)).ofLabel_folder
  rw [ofFolders]
  refine List.Perm.append_left _ (List.Perm.of_eq (List.flatMap_congr fun holding member => ?_))
  refine ofLabel_fileLines recentSince fun r inFiles => ?_
  have isFile := isShown _ (placed.path_of_mem member r inFiles).1
  rwa [List.getLastD_concat] at isFile

theorem unbroken_treeLines (unbroken : ∀ names, shown names → '\n' ∉ (names.getLastD "").toList) :
    ∀ line ∈ f.treeLines recentSince "", '\n' ∉ line.toList := by
  refine unbroken_of_drawn (forall₂_treeLines recentSince f isLead_empty) ?_
  intro label isLabel
  rcases List.mem_append.mp ((labels_perm recentSince f names).mem_iff.mp isLabel) with isFolder | isFile
  · obtain ⟨holding, member, rfl⟩ := List.mem_map.mp isFolder
    rw [folderLabel, String.toList_append, List.mem_append, not_or]
    exact ⟨unbroken _ (placed.shown_of_mem_tail member), by decide⟩
  · obtain ⟨holding, member, isLine⟩ := List.mem_flatMap.mp isFile
    refine unbroken_fileLines recentSince (fun r inFiles => ?_) label isLine
    have nameUnbroken := unbroken _ (placed.path_of_mem member r inFiles).1
    rwa [List.getLastD_concat] at nameUnbroken

end

end Folder

end Surveyor
