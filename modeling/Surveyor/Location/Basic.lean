import Surveyor.Quality.Unused

/-! # Places worth knowing in a project

Entry points, files that configure a database, environment files, databases in files, dotted
configuration files and logs.
-/

namespace Surveyor

open Pattern

structure EntryPoint where
  path : String
  hint : String

def EntryPoint.toValue (e : EntryPoint) : Value := .map [("path", .str e.path), ("hint", .str e.hint)]

def commonEntryPoints : List String :=
  ["index.php", "public/index.php", "index.html", "index.htm", "server.js", "main.js", "app.js",
    "bootstrap.php"]

def entryCandidates (projectType : String) : List String :=
  match projectType with
  | "php" => ["index.php", "public/index.php", "bootstrap.php", "vendor/autoload.php"]
  | "nodejs" => ["server.js", "index.js", "main.js", "app.js"]
  | "spa" => ["index.html", "index.htm", "src/main.js", "src/index.js"]
  | "pwa" => ["index.html", "src/main.js"]
  | "telegram" => ["index.html", "app.js"]
  | "static" => ["index.html", "index.htm"]
  | _ => commonEntryPoints

/-- Is the path, in lower case with forward slashes, the candidate or one in a folder? -/
def isCandidate (lowered candidate : String) : Bool :=
  lowered == candidate || Text.hasSuffix lowered ("/" ++ candidate)

/-- The usual entry points among the paths, by candidate; a path is listed once. -/
def candidateEntryPoints (paths : List String) (projectType : String) : List EntryPoint :=
  let lowered := paths.map fun path => (path, lower (Text.replaceChar '\\' '/' path))
  (entryCandidates projectType).foldl
    (fun found candidate =>
      lowered.foldl
        (fun found (path, low) =>
          if !found.any (·.path == path) && isCandidate low (lower candidate) then
            found ++ [⟨path, candidate⟩]
          else found)
        found)
    []

def webhookSample : Nat := 15000

def webhookPatterns : List Pattern :=
  [caseless "file_get_contents" ++ blanks ++ char '(' ++ blanks ++ quote ++ caseless "php://input"
      ++ quote ++ blanks ++ char ')',
    lit "$_REQUEST" ++ wordEdge,
    lit "$_POST" ++ wordEdge,
    caseless "webhook",
    caseless "getUpdates" <|> caseless "setWebhook" <|> caseless "sendMessage"]

def sample (content : String) (size : Int) : Subject :=
  Subject.ofText ((Text.ofString content).takeTo size)

/-- The PHP files that answer requests of a service. -/
def webhookEntryPoints (contents : Contents) : List EntryPoint :=
  (contents.sorted.filter fun (path, content) =>
    isPhpPath path && !content.isEmpty
      && anyOccurs webhookPatterns (sample content webhookSample)).map
    fun (path, _) => ⟨path, "webhook/api"⟩

def databaseSample : Nat := 50000

def databasePatterns : List Pattern :=
  [wordEdge ++ caseless "new" ++ blanks1 ++ caseless "PDO" ++ blanks ++ char '(',
    wordEdge ++ caseless "mysqli_connect" ++ blanks ++ char '(',
    wordEdge ++ caseless "DB_HOST" ++ wordEdge,
    wordEdge ++ caseless "DATABASE_URL" ++ wordEdge,
    wordEdge ++ caseless "mysql://",
    wordEdge ++ caseless "pg_connect" ++ blanks ++ char '(',
    caseless "config" ++ blanks ++ char '[' ++ blanks ++ quote ++ caseless "database" ++ quote
      ++ blanks ++ char ']',
    caseless "connect" ++ blanks ++ char '(' ++ blanks ++ quote]

def databaseFiles (contents : Contents) : List String :=
  (contents.sorted.filter fun (_, content) =>
    anyOccurs databasePatterns (sample content databaseSample)).map (·.1)

structure LogFolder where
  folder : String
  files : List String

def maxLogFolders : Nat := 5

def maxLogsPerFolder : Nat := 3

/-- The folders in the order in which their first log appears, each with all its logs. -/
def groupLogs (paths : List String) : List LogFolder :=
  (paths.filter fun path => hasExtension path [".log"]).foldl
    (fun folders path =>
      let folder := Text.folderName path
      if folders.any (·.folder == folder) then
        folders.map fun f => if f.folder == folder then { f with files := f.files ++ [path] } else f
      else folders ++ [⟨folder, [path]⟩])
    []

/-- The first folders with logs and the first logs in each. -/
def logLocations (paths : List String) : List LogFolder :=
  ((groupLogs paths).take maxLogFolders).map fun f =>
    { f with files := f.files.take maxLogsPerFolder }

def LogFolder.toValue (f : LogFolder) : Value :=
  .map [("folder", .str f.folder), ("files", .strings f.files)]

def sqlitePattern : Pattern :=
  char '.' ++ (caseless "sqlite" ++ opt (char '3') <|> caseless "db") ++ textEnd

def isDatabaseFile (path : String) : Bool := sqlitePattern.occursIn (Subject.ofString path)

def environmentPattern : Pattern :=
  caseless ".env"
    ++ opt (char '.' ++ .greedy (fun c => isWordChar c || c == '.' || c == '-') 0) ++ textEnd

/-- Environment files by their name, or by the ending of their path. -/
def isEnvironmentFile (path : String) : Bool :=
  environmentPattern.matchesAt (Subject.ofString (Text.baseName path)) 0
    || Text.hasSuffix path ".env"

/-- Dotted configuration files other than environment files. -/
def isDottedFile (path : String) : Bool :=
  let base := Text.baseName path
  Text.hasPrefix base "." && !Text.hasPrefix (lower base) ".env" && !isEnvironmentFile path

structure Locations where
  projectType : String
  entryPoints : List EntryPoint
  databaseFiles : List String
  environmentFiles : List String
  sqliteFiles : List String
  dottedFiles : List String
  logs : List LogFolder

namespace Locations

/-- A project without a type has the type `auto`; types are compared in lower case. -/
def ofProject (projectType : String) (paths : List String) (contents : Contents) : Locations :=
  let paths := Text.sortStrings paths
  let projectType := lower (if projectType.isEmpty then "auto" else projectType)
  { projectType := projectType
    entryPoints :=
      (if projectType == "telegram-php" then webhookEntryPoints contents
        else candidateEntryPoints paths projectType).take 10
    databaseFiles := (Surveyor.databaseFiles contents).take 15
    environmentFiles := paths.filter isEnvironmentFile
    sqliteFiles := (paths.filter isDatabaseFile).take 10
    dottedFiles := (paths.filter isDottedFile).take 20
    logs := logLocations paths }

def toValue (l : Locations) : Value :=
  .map [("project_type", .str l.projectType),
    ("entry_points", .list (l.entryPoints.map EntryPoint.toValue)),
    ("db_config", .list (l.databaseFiles.map fun path => .map [("path", .str path)])),
    ("env_files", .strings l.environmentFiles),
    ("sqlite_files", .strings l.sqliteFiles),
    ("dotted_config_files", .strings l.dottedFiles),
    ("log_locations", .list (l.logs.map LogFolder.toValue))]

end Locations

end Surveyor
