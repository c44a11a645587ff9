import Surveyor.FileTree.Basic

/-! # Writing into a tree of files

A file is written where its path leads, links followed; the directories it needs are made first. A
path can also be taken as it is spelt: steps up are then taken before any link is followed.
-/

namespace Surveyor

inductive WriteFault where
  /-- What is there is a directory. -/
  | isDirectory
  /-- Where a directory is needed there is something else. -/
  | occupied
  /-- The path leads through a file. -/
  | throughFile
  /-- A link leads into a directory that does not exist. -/
  | missing
  /-- Links lead around in a circle. -/
  | circularLink
  deriving DecidableEq, Repr

def WriteFault.reason : WriteFault → String
  | .isDirectory => "is a directory"
  | .occupied => "a file is in the way"
  | .throughFile => "not a directory"
  | .missing => "no such directory"
  | .circularLink => "circular links"

namespace FileTree

def passesFile (tree : FileTree) (names : List String) : Bool :=
  (List.range (names.length + 1)).any fun n => (tree.find? (names.take n)).any (·.2.isFile)

def hasEntry (tree : FileTree) (parent : List String) (name : String) : Bool :=
  ((tree.find? parent).bind fun (_, node) => node.child? name).isSome

def makeDirectory (tree : FileTree) (parent : List String) (name : String) :
    Except WriteFault FileTree :=
  if name == ".." then .ok tree
  else
    match tree.find? parent with
    | some (place, _) =>
      .ok { tree with root := FileNode.put (.directory []) (place ++ [name]) tree.root }
    | none => .error .circularLink

/-- Makes a directory and those it stands in, given the names of its path from the last one on;
directories that exist stay as they are. -/
def makeDirectories (tree : FileTree) : List String → Except WriteFault FileTree
  | [] => .ok tree
  | name :: parents =>
    let parent := parents.reverse
    match tree.find? (parent ++ [name]) with
    | some (_, .directory _) => .ok tree
    | some _ => .error .occupied
    | none =>
      if tree.passesFile parent then .error .throughFile
      else if tree.hasEntry parent name then .error .occupied
      else do
        let tree ← makeDirectories tree parents
        tree.makeDirectory parent name

/-- The names of a path as it is spelt, without the steps up. -/
def spelledNames (names : List String) : List String :=
  names.foldl (fun above name => if name == ".." then above.dropLast else above ++ [name]) []

def changeFile (tree : FileTree) (names : List String) (change : ByteArray → ByteArray)
    (modified : Int) : Except WriteFault FileTree := do
  match tree.find? names with
  | some (_, .directory _) => .error .isDirectory
  | some (place, .file bytes _) => return tree.putFile place (change bytes) modified
  | _ =>
    match tree.realPath? names with
    | none => .error .circularLink
    | some place =>
      if (tree.find? place.dropLast).any (·.2.isDirectory) then
        return tree.putFile place (change .empty) modified
      else .error .missing

end FileTree

end Surveyor
