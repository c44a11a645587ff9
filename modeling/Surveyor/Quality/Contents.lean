import Surveyor.Text.LowerCase
import Surveyor.Value.Access

/-! # Contents of the analysed files -/

namespace Surveyor

abbrev Contents := List (String × String)

namespace Contents

def sorted (contents : Contents) : Contents :=
  contents.mergeSort fun a b => decide (a.1 ≤ b.1)

/-- The files with something in them, none of `skip`, in ascending order of their paths. -/
def filled (contents : Contents) (skip : List String) : Contents :=
  contents.sorted.filter fun (path, content) => !skip.contains path && !content.isEmpty

def filled? (contents : Contents) (path : String) : Option String :=
  match contents.lookup path with
  | some content => if content.isEmpty then none else some content
  | none => none

/-- The content, if there is something in it, of the file that a value names. -/
def filledAt? (contents : Contents) (path : Value) : Except ValueFault (Option String) := do
  match ← path.asKey with
  | .str name => return contents.filled? name
  | _ => return none

end Contents

def hasExtension (path : String) (extensions : List String) : Bool :=
  Text.hasAnySuffix (lower path) extensions

def isPhpPath (path : String) : Bool := hasExtension path [".php"]

def sourceExtensions : List String :=
  [".php", ".js", ".jsx", ".mjs", ".cjs", ".ts", ".tsx", ".vue"]

end Surveyor
