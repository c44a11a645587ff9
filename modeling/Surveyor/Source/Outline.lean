import Surveyor.Source.Comments
import Surveyor.Value.Basic

/-! # Outlines of source files

An `Outline` lists what a source file declares: classes with their methods, functions, imports,
exports and comments. Every declaration keeps the offset of its name and, where it has a body, the
offset of the opening brace; only the lines are published.
-/

namespace Surveyor

structure Property where
  name : String
  visibility : String
  type : Option String
  isStatic : Bool

structure Method where
  name : String
  visibility : String
  params : List String
  returnType : Option String
  isStatic : Bool
  isAsync : Bool
  /-- Whether it reads (getter) or writes (setter) a property, where the language has accessors. -/
  accessor : Option (Bool × Bool)
  isConstructor : Bool
  isMagic : Bool
  line : Int
  offset : Nat
  body : Option Nat

structure ClassDeclaration where
  name : String
  kind : String
  parent : Option String
  interfaces : List String
  methods : List Method
  /-- The properties, where the language declares them. -/
  properties : Option (List Property)
  /-- Whether it is exported, where the language has exports. -/
  isExported : Option Bool
  line : Int
  offset : Nat
  body : Nat

inductive FunctionForm where
  | declaration
  | arrow
  deriving DecidableEq, Repr

def FunctionForm.label : FunctionForm → String
  | .declaration => "declaration"
  | .arrow => "arrow"

structure FunctionDeclaration where
  name : String
  params : List String
  returnType : Option String
  form : FunctionForm
  isAsync : Bool
  isExported : Bool
  line : Int
  offset : Nat
  body : Option Nat

inductive ImportForm where
  | es6
  | commonJs
  | use
  | require
  deriving DecidableEq, Repr

def ImportForm.label : ImportForm → String
  | .es6 => "es6"
  | .commonJs => "commonjs"
  | .use => "use"
  | .require => "require"

structure Import where
  source : String
  specifiers : List String
  localName : Option String
  form : ImportForm
  line : Int
  start : Nat
  stop : Nat

inductive ExportForm where
  | es6
  | commonJs
  | default
  deriving DecidableEq, Repr

def ExportForm.label : ExportForm → String
  | .es6 => "es6"
  | .commonJs => "commonjs"
  | .default => "default"

structure Export where
  name : String
  form : ExportForm
  line : Int
  offset : Nat

structure Outline where
  path : String
  language : String
  classes : List ClassDeclaration
  functions : List FunctionDeclaration
  imports : List Import
  exports : List Export
  comments : List Comment
  /-- Whether a component has a setup script, where the language has components. -/
  isScriptSetup : Option Bool

/-! ## Published form -/

def Property.toValue (p : Property) : Value :=
  .map [("name", .str p.name), ("visibility", .str p.visibility), ("type", .ofOption p.type),
    ("is_static", .bool p.isStatic)]

def Method.toValue (m : Method) : Value :=
  .map <|
    [("name", Value.str m.name), ("visibility", Value.str m.visibility),
      ("params", Value.strings m.params), ("return_type", Value.ofOption m.returnType),
      ("is_static", Value.bool m.isStatic), ("is_async", Value.bool m.isAsync)]
    ++ (match m.accessor with
      | some (reads, writes) => [("is_getter", Value.bool reads), ("is_setter", Value.bool writes)]
      | none => [])
    ++ [("is_constructor", Value.bool m.isConstructor), ("is_magic", Value.bool m.isMagic),
      ("line", Value.int m.line)]

def ClassDeclaration.toValue (c : ClassDeclaration) : Value :=
  .map <|
    [("name", Value.str c.name), ("kind", Value.str c.kind), ("extends", Value.ofOption c.parent),
      ("implements", Value.strings c.interfaces),
      ("methods", Value.list (c.methods.map Method.toValue))]
    ++ (match c.properties with
      | some properties => [("properties", Value.list (properties.map Property.toValue))]
      | none => [])
    ++ [("line", Value.int c.line)]
    ++ (match c.isExported with
      | some exported => [("is_exported", Value.bool exported)]
      | none => [])

def FunctionDeclaration.toValue (f : FunctionDeclaration) : Value :=
  .map [("name", .str f.name), ("params", .strings f.params),
    ("return_type", .ofOption f.returnType), ("type", .str f.form.label),
    ("is_async", .bool f.isAsync), ("is_exported", .bool f.isExported), ("line", .int f.line)]

def Import.toValue (i : Import) : Value :=
  .map [("source", .str i.source), ("specifiers", .strings i.specifiers),
    ("alias", .ofOption i.localName), ("type", .str i.form.label), ("line", .int i.line)]

def Export.toValue (e : Export) : Value :=
  .map [("name", .str e.name), ("type", .str e.form.label), ("line", .int e.line)]

def Comment.toValue (c : Comment) : Value :=
  .map [("text", .str c.text), ("line", .int c.line), ("type", .str c.style.label)]

def Outline.toValue (o : Outline) : Value :=
  .map <|
    [("path", Value.str o.path), ("language", Value.str o.language),
      ("classes", Value.list (o.classes.map ClassDeclaration.toValue)),
      ("functions", Value.list (o.functions.map FunctionDeclaration.toValue)),
      ("imports", Value.list (o.imports.map Import.toValue)),
      ("exports", Value.list (o.exports.map Export.toValue)),
      ("comments", Value.list (o.comments.map Comment.toValue))]
    ++ (match o.isScriptSetup with
      | some setup => [("is_script_setup", Value.bool setup)]
      | none => [])

/-- The stripped text of an optional group; nothing if it is blank. -/
def cleanType (type : Option String) : Option String :=
  match type.map Text.strip with
  | some "" => none
  | other => other

/-- The non-blank parts between commas, stripped. -/
def commaNames (names : String) : List String :=
  ((Text.split ',' names).map Text.strip).filter (!·.isEmpty)

/-- The first of the words that names an access level; public without one. -/
def visibilityOf (words : List String) : String :=
  (words.find? fun w => ["public", "private", "protected"].contains w).getD "public"

end Surveyor
