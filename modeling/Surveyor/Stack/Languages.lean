import Surveyor.Value.Access

/-! # Languages of a project -/

namespace Surveyor

def languageNames : List (String × String) :=
  [(".php", "PHP"), (".js", "JavaScript"), (".mjs", "JavaScript"), (".cjs", "JavaScript"),
    (".jsx", "JavaScript (JSX)"), (".ts", "TypeScript"), (".tsx", "TypeScript (TSX)"),
    (".vue", "Vue"), (".svelte", "Svelte"), (".html", "HTML"), (".htm", "HTML"), (".css", "CSS"),
    (".scss", "SCSS"), (".less", "LESS"), (".sass", "SASS"), (".json", "JSON"), (".xml", "XML"),
    (".yaml", "YAML"), (".yml", "YAML"), (".sql", "SQL"), (".py", "Python"), (".rb", "Ruby"),
    (".go", "Go"), (".java", "Java"), (".md", "Markdown")]

structure LanguageShare where
  name : String
  extension : String
  files : Nat
  lines : Int

namespace LanguageShare

def linesOf? (file : Value) : Except ValueFault (Option (String × Int)) := do
  match ← ((← file.field "extension").orElse (.str "")).asKey with
  | .str extension =>
    if (languageNames.lookup extension).isSome then
      return some (extension, ← ((← file.field "lines").orElse (.int 0)).whole)
    else return none
  | _ => return none

def ofExtension (files : List (String × Int)) (extension name : String) : LanguageShare :=
  let own := files.filter (·.1 == extension)
  ⟨name, extension, own.length, own.foldl (fun n file => n + file.2) 0⟩

/-- More lines come first, equal shares by extension. -/
def comesBefore (a b : LanguageShare) : Bool :=
  b.lines < a.lines || (a.lines == b.lines && decide (a.extension ≤ b.extension))

def ofLines (files : List (String × Int)) : List LanguageShare :=
  ((languageNames.map fun (extension, name) => ofExtension files extension name).filter
    fun share => share.files != 0).mergeSort comesBefore

def ofFiles (files : Value) : Except ValueFault (List LanguageShare) := do
  return ofLines ((← (← files.members).mapM linesOf?).filterMap id)

def toValue (share : LanguageShare) : Value :=
  .map [("name", .str share.name), ("extension", .str share.extension),
    ("files", .ofNat share.files), ("lines", .int share.lines)]

end LanguageShare

end Surveyor
