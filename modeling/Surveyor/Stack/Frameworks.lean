import Surveyor.Json.Relaxed
import Surveyor.Quality.Contents

/-! # Manifests and the frameworks in them -/

namespace Surveyor

/-! ## Manifests -/

inductive ManifestKind where
  | package
  | composer
  | tsconfig
  deriving DecidableEq, Repr

namespace ManifestKind

def fileName : ManifestKind → String
  | .package => "package.json"
  | .composer => "composer.json"
  | .tsconfig => "tsconfig.json"

/-- Compiler settings may hold comments and trailing commas. -/
def read? (kind : ManifestKind) (content : String) : Option Entries :=
  match kind with
  | .tsconfig => Json.readRelaxedObject? (Text.ofString content)
  | _ => Json.readObject? (Text.ofString content)

end ManifestKind

/-- Paths with fewer folders come first, those with as many in ascending order. -/
def isRootward (a b : String) : Bool :=
  let depth := Text.countChar '/'
  depth a < depth b || (depth a == depth b && decide (a ≤ b))

/-- The file with the given name that lies closest to the root. -/
def findManifest? (contents : Contents) (fileName : String) : Option (String × String) :=
  ((contents.filter fun (path, _) => Text.baseName path == fileName).mergeSort
    fun a b => isRootward a.1 b.1).head?

/-- The package manager whose lock file is among the names. -/
def packageManager (fileNames : List String) : String :=
  if fileNames.contains "pnpm-lock.yaml" then "pnpm"
  else if fileNames.contains "yarn.lock" then "yarn"
  else "npm"

/-- Requirements on the platform are no packages. -/
def isPlatformPackage (name : String) : Bool := name == "php" || Text.hasPrefix name "ext-"

def dependencyEntries (declared type source : Value) (skipPlatform : Bool) : List Value :=
  (declared.entries.filter fun (name, _) => !(skipPlatform && isPlatformPackage name)).map
    fun (name, version) =>
      .map [("name", .str name), ("version", version), ("type", type), ("source", source)]

/-! ## Frameworks -/

def scriptFrameworks : List (String × String) :=
  [("react", "React"), ("react-dom", "React"), ("next", "Next.js"), ("vue", "Vue.js"),
    ("nuxt", "Nuxt.js"), ("@angular/core", "Angular"), ("svelte", "Svelte"),
    ("express", "Express.js"), ("fastify", "Fastify"), ("koa", "Koa"), ("nest", "NestJS"),
    ("@nestjs/core", "NestJS"), ("electron", "Electron"), ("tailwindcss", "Tailwind CSS"),
    ("bootstrap", "Bootstrap"), ("jquery", "jQuery"), ("socket.io", "Socket.IO"),
    ("mongoose", "Mongoose (MongoDB)"), ("sequelize", "Sequelize (SQL ORM)"),
    ("prisma", "Prisma"), ("@prisma/client", "Prisma")]

def phpFrameworks : List (String × String) :=
  [("laravel/framework", "Laravel"), ("symfony/framework-bundle", "Symfony"),
    ("yiisoft/yii2", "Yii2"), ("cakephp/cakephp", "CakePHP"), ("slim/slim", "Slim"),
    ("codeigniter4/framework", "CodeIgniter"), ("doctrine/orm", "Doctrine ORM"),
    ("phpunit/phpunit", "PHPUnit")]

def configIndicators : List (String × String) :=
  [(".eslintrc.json", "ESLint"), (".eslintrc.js", "ESLint"), (".prettierrc", "Prettier"),
    ("webpack.config.js", "Webpack"), ("vite.config.js", "Vite"), ("vite.config.ts", "Vite"),
    ("next.config.js", "Next.js"), ("next.config.mjs", "Next.js"), ("nuxt.config.js", "Nuxt.js"),
    ("nuxt.config.ts", "Nuxt.js"), ("vue.config.js", "Vue CLI"),
    ("tailwind.config.js", "Tailwind CSS"), ("tailwind.config.ts", "Tailwind CSS"),
    ("docker-compose.yml", "Docker"), ("Dockerfile", "Docker"), (".env", "dotenv"),
    ("artisan", "Laravel"), ("wp-config.php", "WordPress")]

def frameworkIndicators : List String :=
  ["Laravel", "WordPress", "Next.js", "Nuxt.js", "Vue CLI"]

structure Framework where
  name : String
  version : Option Value
  source : String
  isPrimary : Bool

namespace Framework

def toValue (f : Framework) : Value :=
  .map <|
    [("name", Value.str f.name)] ++ (f.version.map fun v => ("version", v)).toList
      ++ [("source", Value.str f.source)]
      ++ (if f.isPrimary then [("primary", Value.bool true)] else [])

/-- The frameworks whose packages are declared with a version, each once. -/
def ofDependencies (table : List (String × String)) (dependencies : Entries) (source : String) :
    List Framework :=
  table.foldl
    (fun found (package, name) =>
      match dependencies.lookup package with
      | some version =>
        if version.isGiven && !found.any (·.name == name) then
          found ++ [⟨name, some version, source, false⟩]
        else found
      | none => found)
    []

/-- Adds the frameworks that the files of the given names show, unless known already. -/
def addIndicated (fileNames : List String) (known : List Framework) : List Framework :=
  configIndicators.foldl
    (fun found (fileName, name) =>
      if fileNames.contains fileName && frameworkIndicators.contains name
          && !found.any (·.name == name) then
        found ++ [⟨name, none, fileName, false⟩]
      else found)
    known

/-- Marks the first framework of a name, compared without regard to case. -/
def markFirst (hint : String) : List Framework → Option (List Framework)
  | [] => none
  | f :: rest =>
    if lower f.name == lower hint then some ({ f with isPrimary := true } :: rest)
    else (markFirst hint rest).map (f :: ·)

/-- Marks the framework that the user named, which is added in front if it was not found. -/
def applyHint (hint : Option String) (frameworks : List Framework) : List Framework :=
  match hint with
  | none => frameworks
  | some hint =>
    if hint.isEmpty || lower hint == "none" then frameworks
    else (markFirst hint frameworks).getD (⟨hint, none, "user-specified", true⟩ :: frameworks)

end Framework

end Surveyor
