import Surveyor.Catalog.Names
import Surveyor.Catalog.Obfuscation
import Surveyor.Catalog.Timestamp
import Surveyor.FileTree.Basic
import Surveyor.Text.Utf8
import Surveyor.Value.Access

/-! # The catalogue of a project

A directory is first pruned to the `Folder` of what is catalogued in it; records, totals and the
rendered tree are then read off that folder.
-/

namespace Surveyor

/-- A catalogued file. Its content is there if it was read. -/
structure FileRecord where
  path : String
  name : String
  extension : String
  size : Nat
  lines : Nat
  /-- The time of the last change in seconds since 1970. -/
  modified : Float
  content : Option String
  isObfuscated : Bool

namespace FileRecord

/-- The time of the last change in microseconds, as it is shown. -/
def time (r : FileRecord) : Int := Timestamp.roundMicroseconds r.modified

def toValue (r : FileRecord) : Value :=
  .map [("path", .str r.path), ("name", .str r.name), ("extension", .str r.extension),
    ("size", .ofNat r.size), ("lines", .ofNat r.lines),
    ("last_modified", .str (Timestamp.isoText r.time)), ("obfuscated", .bool r.isObfuscated)]

/-- The record of a file; content is read unless the file is too large or no text. -/
def ofFile (maxSize : Int) (path name : String) (bytes : ByteArray) (modified : Int) : FileRecord :=
  let extension := extensionOf name
  let bare : FileRecord :=
    ⟨path, name, extension, bytes.size, 0, Timestamp.seconds modified, none, false⟩
  if maxSize < bytes.size || !isReadable extension then bare
  else
    let content := Utf8.decode bytes
    { bare with
      lines := countLines content
      content := some content
      isObfuscated := isScriptExtension extension && looksObfuscated (Text.ofString content) }

end FileRecord

/-- What is catalogued in a directory, in ascending order of names. -/
inductive Folder where
  | mk (name : String) (files : List FileRecord) (minified : Nat) (folders : List Folder)
  deriving Inhabited

/-- What an entry of a directory contributes to its folder. -/
inductive FolderEntry where
  | folder (f : Folder)
  | file (r : FileRecord)
  | minified

structure SurveyRules where
  patterns : List String
  maxFileSize : Int

/-- The patterns without blanks around them, each once, without empty ones. -/
def exclusionPatterns (excluded : List String) : List String :=
  (excluded.map Text.strip).foldl
    (fun patterns pattern =>
      if pattern.isEmpty || patterns.contains pattern then patterns else patterns ++ [pattern])
    []

/-- The path of an entry in a directory whose own path is empty for the root. -/
def childPath (parent name : String) : String :=
  if parent.isEmpty then name else parent ++ "/" ++ name

namespace Folder

def entryOfFile (rules : SurveyRules) (path name : String) (bytes : ByteArray) (modified : Int) :
    FolderEntry :=
  if isMinified name then .minified
  else .file (FileRecord.ofFile rules.maxFileSize path name bytes modified)

def sortEntries (entries : List (String × FolderEntry)) : List (String × FolderEntry) :=
  entries.mergeSort fun a b => decide (a.1 ≤ b.1)

def ofEntries (name : String) (entries : List (String × FolderEntry)) : Folder :=
  let sorted := (sortEntries entries).map (·.2)
  .mk name
    (sorted.filterMap fun
      | .file r => some r
      | _ => none)
    (sorted.countP fun
      | .minified => true
      | _ => false)
    (sorted.filterMap fun
      | .folder f => some f
      | _ => none)

mutual

/-- What a node contributes. A link contributes the file it leads to, if any; directories behind
links are not entered. -/
def entryOf? (tree : FileTree) (rules : SurveyRules) (place : List String) (path name : String) :
    FileNode → Option FolderEntry
  | .directory entries => some (.folder (ofEntries name (prune tree rules (place ++ [name]) path entries)))
  | .file bytes modified => some (entryOfFile rules path name bytes modified)
  | .link _ =>
    match tree.find? (place ++ [name]) with
    | some (_, .file bytes modified) => some (entryOfFile rules path name bytes modified)
    | _ => none

def prune (tree : FileTree) (rules : SurveyRules) (place : List String) (parent : String) :
    List (String × FileNode) → List (String × FolderEntry)
  | [] => []
  | (name, node) :: rest =>
    let path := childPath parent name
    let others := prune tree rules place parent rest
    if isExcluded name path rules.patterns then others
    else
      match entryOf? tree rules place path name node with
      | some entry => (name, entry) :: others
      | none => others

end

def ofDirectory (tree : FileTree) (rules : SurveyRules) (place : List String)
    (entries : List (String × FileNode)) : Folder :=
  ofEntries "" (prune tree rules place "" entries)

/-! ## Reading off a folder -/

mutual

/-- The records of a folder: its own files, then those of its folders. -/
def records : Folder → List FileRecord
  | .mk _ files _ folders => files ++ recordsOfAll folders

def recordsOfAll : List Folder → List FileRecord
  | [] => []
  | f :: rest => records f ++ recordsOfAll rest

end

mutual

def folderCount : Folder → Nat
  | .mk _ _ _ folders => folderCountOfAll folders

def folderCountOfAll : List Folder → Nat
  | [] => 0
  | f :: rest => 1 + folderCount f + folderCountOfAll rest

end

mutual

def minifiedCount : Folder → Nat
  | .mk _ _ minified folders => minified + minifiedCountOfAll folders

def minifiedCountOfAll : List Folder → Nat
  | [] => 0
  | f :: rest => minifiedCount f + minifiedCountOfAll rest

end

/-- The line of a listed file, with the date of a recent change. -/
def fileLine (recentSince : Float) (r : FileRecord) : String :=
  if r.modified < recentSince then r.name
  else r.name ++ " (" ++ Timestamp.shortText r.time ++ ")"

/-- The line that stands for the assets of a folder. -/
def assetLine (count : Nat) : String :=
  "... " ++ toString count ++ " asset file" ++ (if count == 1 then "" else "s")
    ++ " (images, fonts, media)"

/-- The lines of a folder's files: the listed ones, and one for all assets. -/
def fileLines (recentSince : Float) (files : List FileRecord) : List String :=
  let assets := files.countP fun r => !isListed r.extension
  ((files.filter fun r => isListed r.extension).map (fileLine recentSince))
    ++ (if assets == 0 then [] else [assetLine assets])

/-- Puts the branches of a tree in front of lines, the last one ending the branch. -/
def leafLines (lead : String) : List String → List String
  | [] => []
  | [line] => [lead ++ "└── " ++ line]
  | line :: rest => (lead ++ "├── " ++ line) :: leafLines lead rest

mutual

/-- The rendered tree below a folder, every line after `lead`. -/
def treeLines (recentSince : Float) (lead : String) : Folder → List String
  | .mk _ files _ folders =>
    let leaves := fileLines recentSince files
    folderLines recentSince lead leaves.isEmpty folders ++ leafLines lead leaves

/-- The lines of the folders of a folder; the last of them ends the branch if nothing follows. -/
def folderLines (recentSince : Float) (lead : String) (isEnd : Bool) : List Folder → List String
  | [] => []
  | .mk name files minified folders :: rest =>
    let isLast := isEnd && rest.isEmpty
    (lead ++ (if isLast then "└── " else "├── ") ++ name ++ "/")
      :: (treeLines recentSince (lead ++ (if isLast then "    " else "│   "))
          (.mk name files minified folders)
        ++ folderLines recentSince lead isEnd rest)

end

end Folder

/-! ## Catalogues -/

inductive CatalogError where
  | missingRoot (path : String)
  | notADirectory (path : String)
  /-- A name on the way to the root is too long. -/
  | nameTooLong
  /-- The span of recent days is too long. -/
  | daysOutOfRange (days : Int)
  /-- A file was changed in a year outside of the calendar; the paths met before it. -/
  | undated (time : Int) (before : List String)
  /-- The span of recent days is no number of days. -/
  | noSpan (fault : ValueFault)
  deriving Repr, DecidableEq

def CatalogError.message : CatalogError → String
  | .missingRoot path => "Root path does not exist: " ++ path
  | .notADirectory path => "Root path is not a directory: " ++ path
  | .nameTooLong => "File name too long"
  | .daysOutOfRange days =>
    if -2147483648 ≤ days && days ≤ 2147483647 then
      "days=" ++ toString days ++ "; must have magnitude <= 999999999"
    else "Python int too large to convert to C int"
  | .undated time _ => Timestamp.undated time
  | .noSpan fault => fault.message

structure Catalog where
  root : String
  /-- The records in the order in which they were met. -/
  visited : List FileRecord
  files : List FileRecord
  totalFolders : Nat
  minifiedSkipped : Nat
  tree : List String

namespace Catalog

def microsecondsPerDay : Int := 86400000000

/-- A number of days in microseconds. A part of a day is rounded to the nearest microsecond. -/
def microsecondsOfDays : Value → Except ValueFault Int
  | .float x => do
    let days ← Value.whole (.float x)
    let part := (x - Binary64.ofInt days) * Binary64.ofInt microsecondsPerDay
    return days * microsecondsPerDay + (Binary64.roundToInt? part).getD 0
  | .null | .str _ | .list _ | .tuple _ | .set _ | .map _ | .view _ =>
    .error (.wrongKind "unsupported type for timedelta days component")
  | v => return v.asInt * microsecondsPerDay

/-- The double closest to the quotient of an integer. -/
def quotient (n : Int) (denominator : Nat) : Float :=
  let x := Binary64.nearest n.natAbs denominator
  if n < 0 then -x else x

/-- The time, in seconds, from which on a change is recent; `now` is in microseconds. -/
def recentSince (now : Int) (span : Value) : Except CatalogError Float := do
  let total ← (microsecondsOfDays span).mapError .noSpan
  let days := total.fdiv microsecondsPerDay
  if -999999999 ≤ days && days ≤ 999999999 then return quotient now 1000000 - quotient total 1000000
  else .error (.daysOutOfRange days)

/-- The fault of the first file that was changed in a year outside of the calendar. -/
def datingFault? (records : List FileRecord) : Option CatalogError :=
  match records.span fun r => Timestamp.isDated r.time with
  | (before, r :: _) => some (.undated r.time (before.map (·.path)))
  | (_, []) => none

def ofDirectory (tree : FileTree) (rules : SurveyRules) (recent : Float) (place : List String)
    (entries : List (String × FileNode)) : Catalog :=
  let folder := Folder.ofDirectory tree rules place entries
  let visited := folder.records
  { root := tree.absolute place
    visited := visited
    files := visited.mergeSort fun a b => decide (a.path ≤ b.path)
    totalFolders := folder.folderCount
    minifiedSkipped := folder.minifiedCount
    tree := folder.treeLines recent "" }

def survey (tree : FileTree) (here : List String) (path : String) (rules : SurveyRules)
    (recentDays : Value) (now : Int) : Except CatalogError Catalog :=
  match (tree.names? here path).bind tree.find? with
  | none => .error (if tree.isTooLong here path then .nameTooLong else .missingRoot path)
  | some (place, .directory entries) =>
    match recentSince now recentDays with
    | .error e => .error e
    | .ok recent =>
      let catalog := ofDirectory tree rules recent place entries
      match datingFault? catalog.visited with
      | some fault => .error fault
      | none => .ok catalog
  | some _ => .error (.notADirectory path)

def totalLines (c : Catalog) : Nat := sumOf (·.lines) c.files

def extensionLabel (r : FileRecord) : String :=
  if r.extension.isEmpty then "(no ext)" else r.extension

def byExtension (c : Catalog) : List (String × Nat) :=
  (Text.distinctSorted (c.files.map extensionLabel)).map fun label =>
    (label, c.files.countP fun r => extensionLabel r == label)

structure FolderStats where
  folder : String
  files : Nat
  lines : Nat
  size : Nat

def FolderStats.comesBefore (a b : FolderStats) : Bool :=
  b.files < a.files || (a.files == b.files && decide (a.folder ≤ b.folder))

/-- The folders that hold files, those with more files first. -/
def folderStats (c : Catalog) : List FolderStats :=
  ((Text.distinctSorted (c.files.map fun r => Text.folderName r.path)).map fun folder =>
    let own := c.files.filter fun r => Text.folderName r.path == folder
    ⟨folder, own.length, sumOf (·.lines) own, sumOf (·.size) own⟩).mergeSort
    FolderStats.comesBefore

def FolderStats.toValue (s : FolderStats) : Value :=
  .map [("folder", .str s.folder), ("files", .ofNat s.files), ("lines", .ofNat s.lines),
    ("size", .ofNat s.size)]

def contents (c : Catalog) : List (String × String) :=
  c.files.filterMap fun r => r.content.map fun content => (r.path, content)

def toValue (c : Catalog) : Value :=
  .map [("root_path", .str c.root), ("total_files", .ofNat c.files.length),
    ("total_lines", .ofNat c.totalLines), ("total_folders", .ofNat c.totalFolders),
    ("by_extension", .map (c.byExtension.map fun (label, count) => (label, .ofNat count))),
    ("folder_stats", .list (c.folderStats.map FolderStats.toValue)),
    ("files", .list (c.files.map FileRecord.toValue)),
    ("file_tree", .str (Text.join "\n" c.tree)),
    ("minified_skipped", .ofNat c.minifiedSkipped)]

end Catalog

end Surveyor
