import Surveyor.Value.Sorting

/-! # Declarations taken from published outlines

Later stages see outlines in their published form. Lists that an outline lacks count as empty; a
declaration must have a name and a line, of whatever kind.
-/

namespace Surveyor

/-- Published outlines with their paths, in ascending order of the paths. -/
def outlinesByPath (outlines : Value) : Except ValueFault (List (Value × Value)) := do
  let keyed ← (← outlines.members).mapM fun o => do return (← o.entry "path", o)
  Value.sortedBy (·.1) keyed

/-! ## Declared symbols -/

inductive SymbolKind where
  | function
  | method
  | class_
  | other (label : String)
  deriving DecidableEq, Repr

namespace SymbolKind

def label : SymbolKind → String
  | .function => "function"
  | .method => "method"
  | .class_ => "class"
  | .other label => label

def ofLabel (label : String) : SymbolKind :=
  match label with
  | "function" => .function
  | "method" => .method
  | "class" => .class_
  | _ => .other label

@[simp]
theorem label_ofLabel (label : String) : (ofLabel label).label = label := by
  unfold ofLabel
  split <;> rfl

end SymbolKind

structure DeclaredSymbol where
  name : Value
  kind : SymbolKind
  file : Value
  line : Value
  language : Value
  className : Value := .null
  visibility : Value := .null

structure DeclaredSymbols where
  functions : List DeclaredSymbol
  methods : List DeclaredSymbol
  classes : List DeclaredSymbol

/-- Names that a framework or the runtime calls, rather than the project. -/
def entryPointNames : List String :=
  ["main", "init", "setup", "boot", "register", "run", "start", "execute", "handle",
    "__construct", "__destruct", "__get", "__set", "__call", "__callStatic",
    "__toString", "__invoke", "__clone",
    "render", "componentDidMount", "componentDidUpdate", "componentWillUnmount",
    "useEffect", "useState", "mounted", "created", "updated", "destroyed",
    "toJSON", "toString", "valueOf", "Symbol",
    "get", "set", "post", "put", "delete", "patch",
    "index", "store", "show", "update", "destroy", "create"]

def isEntryPoint (name : String) : Bool := entryPointNames.contains name

/-- Constructors and magic methods are called implicitly. -/
def isImplicitMethod (name : String) : Bool :=
  name == "constructor" || name == "__construct" || Text.hasPrefix name "__"

namespace DeclaredSymbols

def ofFunction (path language f : Value) : Except ValueFault DeclaredSymbol := do
  return { name := ← f.entry "name", kind := .function, file := path, line := ← f.entry "line",
           language := language }

def ofMethod? (path language owner m : Value) : Except ValueFault (Option DeclaredSymbol) := do
  let name ← m.entry "name"
  if isImplicitMethod (← name.textFor "startswith") then return none
  else
    return some { name := name, kind := .method, file := path, line := ← m.entry "line",
                  language := language, className := ← owner.entry "name",
                  visibility := ← m.field "visibility" }

/-- A class and those of its methods that are not called implicitly. -/
def ofClass (path language c : Value) : Except ValueFault (DeclaredSymbol × List DeclaredSymbol) := do
  let symbol : DeclaredSymbol :=
    { name := ← c.entry "name", kind := .class_, file := path, line := ← c.entry "line",
      language := language }
  let methods ← (← c.membersUnder "methods").mapM (ofMethod? path language c)
  return (symbol, methods.filterMap id)

def ofOutline (path o : Value) : Except ValueFault DeclaredSymbols := do
  let language := (← o.field "language").orElse (.str "unknown")
  let functions ← (← o.membersUnder "functions").mapM (ofFunction path language)
  let classes ← (← o.membersUnder "classes").mapM (ofClass path language)
  return ⟨functions, classes.flatMap (·.2), classes.map (·.1)⟩

def ofOutlines (outlines : Value) : Except ValueFault DeclaredSymbols := do
  let parts ← (← outlinesByPath outlines).mapM fun (path, o) => ofOutline path o
  return ⟨parts.flatMap (·.functions), parts.flatMap (·.methods), parts.flatMap (·.classes)⟩

end DeclaredSymbols

end Surveyor
