import Surveyor.Text.Basic

/-! # Trees of files

A `FileTree` is a directory tree held in memory, hung up at an absolute path (its anchor). Paths are
lists of names below the anchor. `FileTree.find?` follows links the way an open file is looked up;
`FileTree.realPath?` gives the canonical form of a path of which a part need not exist.
-/

namespace Surveyor

/-- A file with its bytes and the time of its last change in microseconds, a directory, or a link
with its target. -/
inductive FileNode where
  | file (bytes : ByteArray) (modified : Int)
  | directory (entries : List (String × FileNode))
  | link (target : String)

namespace FileNode

def isDirectory : FileNode → Bool
  | .directory _ => true
  | _ => false

def isFile : FileNode → Bool
  | .file _ _ => true
  | _ => false

def child? (node : FileNode) (name : String) : Option FileNode :=
  match node with
  | .directory entries => entries.lookup name
  | _ => none

def putEntry (name : String) (node : FileNode) :
    List (String × FileNode) → List (String × FileNode)
  | [] => [(name, node)]
  | (other, present) :: rest =>
    if other == name then (name, node) :: rest else (other, present) :: putEntry name node rest

/-- Puts a node at a path; directories on the way are made where there are none. -/
def put (node : FileNode) : List String → FileNode → FileNode
  | [], _ => node
  | name :: rest, parent =>
    let entries := match parent with
      | .directory entries => entries
      | _ => []
    .directory (putEntry name (put node rest ((entries.lookup name).getD (.directory []))) entries)

end FileNode

/-- A tree of files and the absolute path it hangs at. -/
structure FileTree where
  anchor : String
  root : FileNode

/-- The names of a path between slashes; empty names and single dots say nothing. -/
def pathNames (path : String) : List String :=
  (Text.split '/' path).filter fun name => !name.isEmpty && name != "."

namespace FileTree

/-- The absolute path of names below the anchor. -/
def absolute (tree : FileTree) (names : List String) : String :=
  if names.isEmpty && tree.anchor.isEmpty then "/"
  else names.foldl (fun path name => path ++ "/" ++ name) tree.anchor

/-- The names of a path, which is absolute or relative to `here`; nothing if it leads elsewhere. -/
def names? (tree : FileTree) (here : List String) (path : String) : Option (List String) :=
  if path == tree.anchor || Text.hasPrefix path (tree.anchor ++ "/") then
    some (pathNames (String.ofList (path.toList.drop tree.anchor.length)))
  else if Text.hasPrefix path "/" then none
  else some (here ++ pathNames path)

/-- The node at names that pass through directories only. -/
def plain? (tree : FileTree) (names : List String) : Option FileNode :=
  names.foldl (fun node name => node.bind (·.child? name)) (some tree.root)

/-- How many names may be looked up on the way, those of links included. -/
def lookupLimit : Nat := 4000

def linkLimit : Nat := 40

/-- Where the names of a target lead from, for a link in the directory `place`. -/
def startOf (tree : FileTree) (place : List String) (target : String) : List String :=
  if Text.hasPrefix target "/" || target == tree.anchor
    || Text.hasPrefix target (tree.anchor ++ "/") then [] else place

/-- The names of a target. One that ends in a slash or in a dot asks for a directory, which a dot at
the end of the names stands for. -/
def targetNames? (tree : FileTree) (target : String) : Option (List String) :=
  (tree.names? [] target).map fun names =>
    if Text.hasSuffix target "/" || Text.hasSuffix target "/." || target == "." then names ++ ["."]
    else names

/-- Looks up `names` from the directory `done`, following up to `links` links: the place and what is
there. -/
def walk (tree : FileTree) :
    Nat → Nat → List String → List String → Option (List String × FileNode)
  | 0, _, _, _ => none
  | _ + 1, _, done, [] => (tree.plain? done).map fun node => (done, node)
  | fuel + 1, links, done, name :: rest =>
    match tree.plain? done with
    | some (.directory entries) =>
      if name == "." then walk tree fuel links done rest
      else if name == ".." then walk tree fuel links done.dropLast rest
      else
        match entries.lookup name with
        | some (.link target) =>
          match links, tree.targetNames? target with
          | links + 1, some steps => walk tree fuel links (tree.startOf done target) (steps ++ rest)
          | _, _ => none
        | some _ => walk tree fuel links (done ++ [name]) rest
        | none => none
    | _ => none

/-- What an existing path leads to, and its canonical place. -/
def find? (tree : FileTree) (names : List String) : Option (List String × FileNode) :=
  tree.walk lookupLimit linkLimit [] names

/-- A name may have this many bytes. -/
def nameLimit : Nat := 255

/-- A path has fewer bytes than this. -/
def pathLimit : Nat := 4096

/-- Do names lead to a directory that is then asked for a name longer than it can be? -/
def asksTooLong (tree : FileTree) (names : List String) : Bool :=
  match names.span fun name => decide (name.utf8ByteSize ≤ nameLimit) with
  | (before, _ :: _) => (tree.find? before).any (·.2.isDirectory)
  | (_, []) => false

/-- Is a path, or a name in it that is looked up, longer than it can be? -/
def isTooLong (tree : FileTree) (here : List String) (path : String) : Bool :=
  decide (pathLimit ≤ path.utf8ByteSize)
    || match tree.names? here path with
      | some names => tree.asksTooLong names
      | none => (pathNames path).head?.any fun name => decide (nameLimit < name.utf8ByteSize)

/-- Follows links in `names` from the place `done`, keeping names that lead nowhere; nothing if
links lead around in a circle. -/
def follow (tree : FileTree) : Nat → List String → List String → Option (List String)
  | 0, _, _ => none
  | _ + 1, done, [] => some done
  | fuel + 1, done, name :: rest =>
    if name == ".." then follow tree fuel done.dropLast rest
    else
      match (tree.plain? done).bind (·.child? name) with
      | some (.link target) =>
        match tree.names? [] target with
        | some steps => follow tree fuel (tree.startOf done target) (steps ++ rest)
        | none => follow tree fuel (done ++ [name]) rest
      | _ => follow tree fuel (done ++ [name]) rest

/-- The canonical place of a path, of which a part need not exist; nothing for circular links. -/
def realPath? (tree : FileTree) (names : List String) : Option (List String) :=
  tree.follow lookupLimit [] names

def putFile (tree : FileTree) (names : List String) (bytes : ByteArray) (modified : Int) :
    FileTree :=
  { tree with root := FileNode.put (.file bytes modified) names tree.root }

end FileTree

end Surveyor
