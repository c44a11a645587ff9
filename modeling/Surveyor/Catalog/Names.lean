import Surveyor.Pattern.Vocabulary

/-! # What the name of a file says -/

namespace Surveyor

open Pattern

/-- A dot, one of the extensions in any case, and the end. -/
def minifiedPattern : Pattern :=
  caseless ".min." ++ (caseless "js" <|> caseless "css" <|> caseless "json") ++ textEnd

def isMinified (name : String) : Bool := minifiedPattern.occursIn (Subject.ofString name)

/-- Dotted names are hidden, except environment files and server settings. -/
def isHidden (name : String) : Bool :=
  Text.hasPrefix name "." && !Text.hasPrefix name ".env" && !Text.hasPrefix name ".htaccess"

/-- Does a pattern that is not empty equal the name or occur in the path? -/
def matchesExclusion (name relativePath pattern : String) : Bool :=
  !pattern.isEmpty && (name == pattern || Text.contains relativePath pattern)

def isExcluded (name relativePath : String) (patterns : List String) : Bool :=
  isHidden name || patterns.any (matchesExclusion name relativePath)

/-- The extension of the last name of a path in lower case: from the last dot on, which is neither
the first nor the last character. -/
def extensionOf (path : String) : String :=
  let names := (Text.split '/' path).filter fun name => !name.isEmpty && name != "."
  let name := (names.getLast?.getD "").toList
  let ending := name.reverse.takeWhile (· != '.')
  if ending.isEmpty || name.length ≤ ending.length + 1 then ""
  else lower (String.ofList ('.' :: ending.reverse))

def codeExtensions : List String :=
  [".php", ".js", ".jsx", ".mjs", ".cjs", ".ts", ".tsx", ".vue", ".svelte",
    ".html", ".htm", ".css", ".scss", ".less", ".sass",
    ".json", ".xml", ".yaml", ".yml", ".env", ".sql",
    ".md", ".txt", ".sh", ".bash", ".bat", ".ps1",
    ".py", ".rb", ".go", ".java", ".c", ".cpp", ".h",
    ".twig", ".ejs", ".pug", ".hbs"]

/-- Further extensions of files that are listed one by one in a tree. -/
def settingsExtensions : List String :=
  [".config", ".lock", ".toml", ".ini", ".conf", ".graphql", ".prisma", ".proto"]

def isReadable (extension : String) : Bool := extension.isEmpty || codeExtensions.contains extension

/-- Are files with the extension listed one by one? All others are assets. -/
def isListed (extension : String) : Bool :=
  isReadable extension || settingsExtensions.contains extension

/-- Is the content of files with the extension checked for obfuscation? -/
def isScriptExtension (extension : String) : Bool :=
  [".js", ".jsx", ".mjs", ".cjs"].contains extension

end Surveyor
