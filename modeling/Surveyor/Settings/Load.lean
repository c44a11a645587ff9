import Surveyor.FileTree.Basic
import Surveyor.Settings.Basic
import Surveyor.Text.Utf8
import Surveyor.Value.Display
import Surveyor.Yaml.Document

/-! # Loading settings

The settings of a project stand in a YAML file in its root. Settings of the wrong kind count as not
given, numbers must be positive, and a variable of the environment overrides the type of the
project.
-/

namespace Surveyor

/-! ## Faults of a settings file -/

def settingsFileName : String := ".codeinspector.yml"

inductive SettingsError where
  /-- What is there under the name of the file is a directory. -/
  | directory (file path : String)
  | malformed (file : String)
  | notAMapping
  /-- The bytes of the file are no text. -/
  | undecodable (fault : Utf8.Fault)
  /-- A value of the file has a form that stands for no value. -/
  | impossible (fault : Yaml.YamlError)
  /-- Links on the way to the file lead around in a circle. -/
  | circularLink (path : String)
  /-- A name on the way to the file is too long. -/
  | nameTooLong
  deriving DecidableEq, Repr

namespace SettingsError

def message : SettingsError → String
  | .directory file path =>
    "Unable to read " ++ file ++ ": [Errno 21] Is a directory: " ++ quoted path
  | .malformed file => "Failed to parse " ++ file
  | .notAMapping => settingsFileName ++ " must contain a mapping at the root"
  | .undecodable fault => "'utf-8' codec can't decode " ++ fault.message
  | .impossible (.impossible reason) => reason
  | .impossible (.unknownWord word) => quoted word
  | .impossible (.tooLarge reason) => reason
  | .impossible _ => ""
  | .circularLink path => "Symlink loop from " ++ quoted path
  | .nameTooLong => "File name too long"

/-- Does an analysis go on with the standard settings? -/
def isTolerated : SettingsError → Bool
  | .directory _ _ | .malformed _ | .notAMapping => true
  | .undecodable _ | .impossible _ | .circularLink _ | .nameTooLong => false

end SettingsError

/-! ## Reading settings -/

namespace Settings

open Yaml

/-- The text of a scalar; nothing for other values. -/
def scalarText? : Datum → Except SettingsError (Option String)
  | .str s => .ok (some s)
  | .bool b => .ok (some (if b then "True" else "False"))
  | .int n =>
    match Numeral.decimalText n with
    | .ok text => .ok (some text)
    | .error fault => .error (.impossible (.impossible (fault.message 10 "")))
  | .float x => .ok (some (Value.displayFloat x))
  | _ => .ok none

/-- The texts of the scalars in a sequence; a string is a sequence of one. -/
def texts (d : Document) : Datum → Except SettingsError (List String)
  | .str s => .ok [s]
  | .list items => do return (← items.mapM fun item => scalarText? (d.value item)).filterMap id
  | .bytes octets => .ok (octets.map toString)
  | _ => .ok []

def wholeNumber? : Datum → Option Int
  | .int n => some n
  | .str s =>
    match Numeral.whole 10 s with
    | .ok n => some n
    | .error _ => none
  | _ => none

/-- A positive whole number, unless the standard is to stay. -/
def givenOr {α : Type} (d : Datum) (standard : α) (ofInt : Int → α) : α :=
  match (wholeNumber? d).filter (0 < ·) with
  | some n => ofInt n
  | none => standard

def ofDocument (root : String) (d : Document) : Except SettingsError Settings := do
  let s : Settings := { root := root }
  let limits := d.get d.top "limits"
  let quality := d.get d.top "quality"
  return { s with
    excludePaths := .strings (← texts d (d.get d.top "exclude_paths"))
    projectType := .ofOption (← scalarText? (d.get d.top "project_type"))
    framework := .ofOption (← scalarText? (d.get d.top "framework"))
    enabledStages := ← texts d (d.get (d.get d.top "stages") "enabled")
    maxFileSize := givenOr (d.get limits "max_file_size") s.maxFileSize id
    scanCharLimit := givenOr (d.get limits "scan_char_limit") s.scanCharLimit fun n => .ok (some n)
    progressInterval := givenOr (d.get limits "progress_interval") s.progressInterval .ok
    deadCommentMinLines :=
      givenOr (d.get quality "dead_comment_min_lines") s.deadCommentMinLines .ok
    complexityThreshold :=
      givenOr (d.get quality "complexity_threshold") s.complexityThreshold .ok
    recentDays := givenOr (d.get (d.get d.top "tree") "recent_days") s.recentDays id }

/-- The type of the project from the environment, unless it is blank, overrides that of the
settings. -/
def withOverride (override? : Option String) (s : Settings) : Settings :=
  match override? with
  | some value =>
    if Text.isBlankString value then s else { s with projectType := .str (Text.strip value) }
  | none => s

def plainNewlines : List Char → List Char
  | '\r' :: '\n' :: rest => '\n' :: plainNewlines rest
  | '\r' :: rest => '\n' :: plainNewlines rest
  | c :: rest => c :: plainNewlines rest
  | [] => []

/-- The settings in the bytes of a file with the given name, whose text is read as YAML. -/
def ofBytes (readYaml : Loader) (root file : String) (bytes : ByteArray) :
    Except SettingsError Settings :=
  match Utf8.fault? bytes with
  | some fault => .error (.undecodable fault)
  | none =>
    let text := Utf8.decode bytes
    let chars := plainNewlines text.toList
    if chars.all isBlank then .ok { root := root }
    else
      match readYaml chars.toArray with
      | .error .malformed => .error (.malformed file)
      | .error fault => .error (.impossible fault)
      | .ok none => .ok { root := root }
      | .ok (some document) =>
        match document.top with
        | .null => .ok { root := root }
        | .map _ => ofDocument root document
        | _ => .error .notAMapping

/-- Where the settings for a path stand: in the directory, or beside the file. -/
def fileFor (tree : FileTree) (names : List String) : List String :=
  match tree.find? names with
  | some (_, .directory _) => names ++ [settingsFileName]
  | _ => if names.getLast? == some settingsFileName then names else names.dropLast ++ [settingsFileName]

def ofFile (readYaml : Loader) (tree : FileTree) (place : List String) :
    Except SettingsError Settings :=
  let root := tree.absolute place.dropLast
  let file := place.getLast?.getD ""
  match tree.find? place with
  | none => .ok { root := root }
  | some (_, .file bytes _) => ofBytes readYaml root file bytes
  | some _ => .error (.directory file (tree.absolute place))

/-- The settings for a path, with the override from the environment. -/
def load (readYaml : Loader) (tree : FileTree) (names : List String) (override? : Option String) :
    Except SettingsError Settings :=
  if tree.asksTooLong names then .error .nameTooLong else
  let names := fileFor tree names
  match tree.realPath? names with
  | none => .error (.circularLink (tree.absolute names))
  | some place => (ofFile readYaml tree place).map (withOverride override?)

end Settings

end Surveyor
