import Surveyor.Text.CodePoint
import Surveyor.Value.Display

/-! # Options of a command

A command is given arguments. Those that begin with a dash are options: a long one may be cut short
as long as it stays unambiguous, and short ones that take no value may stand together. A value
follows its option, or is attached to it. After `--` everything is an operand.

`Grammar.read` applies the options from left to right to the state of a request; arguments that
nothing asks for are left over.
-/

namespace Surveyor.Command

inductive UsageFault where
  | noCommand
  | leftOver (arguments : List String)
  | ambiguous (argument : String) (candidates : List String)
  /-- An option stands without the value it takes. -/
  | noValue (label : String)
  /-- A value is attached to an option that takes none. -/
  | unusedValue (label value : String)
  | noChoice (label value : String) (choices : List String)
  | noWholeNumber (label value : String)
  deriving DecidableEq, Repr

namespace UsageFault

def ofArgument (label reason : String) : String := "argument " ++ label ++ ": " ++ reason

def message : UsageFault → String
  | .noCommand => "the following arguments are required: command"
  | .leftOver arguments => "unrecognized arguments: " ++ Text.join " " arguments
  | .ambiguous argument candidates =>
    "ambiguous option: " ++ argument ++ " could match " ++ Text.join ", " candidates
  | .noValue label => ofArgument label "expected one argument"
  | .unusedValue label value => ofArgument label ("ignored explicit argument " ++ quoted value)
  | .noChoice label value choices =>
    ofArgument label ("invalid choice: " ++ quoted value ++ " (choose from "
      ++ Text.join ", " (choices.map quoted) ++ ")")
  | .noWholeNumber label value => ofArgument label ("invalid int value: " ++ quoted value)

end UsageFault

/-- What ends the reading of arguments: a request for help, or a fault. -/
inductive Stop where
  | help (program : String)
  | refused (program : String) (fault : UsageFault)
  deriving DecidableEq, Repr

/-- What an option does to the state of a request. -/
inductive Effect (σ : Type) where
  | help
  | flag (set : σ → σ)
  /-- It takes a value; `set` is given the label of the option, to name it in a fault. The value is
  left out if the mark `--` stands in its place. -/
  | value (set : String → Option String → σ → Except UsageFault σ)

structure Rule (σ : Type) where
  names : List String
  effect : Effect σ

namespace Rule

variable {σ : Type}

def label (rule : Rule σ) : String := Text.join "/" rule.names

def takesValue (rule : Rule σ) : Bool :=
  match rule.effect with
  | .value _ => true
  | _ => false

end Rule

/-- An argument as a list of options makes it out. -/
inductive Reading (σ : Type) where
  | word
  /-- The mark `--`. -/
  | divider
  | unknown
  /-- An option and what is attached to it; a short option may have others attached. -/
  | option (rule : Rule σ) (isShort : Bool) (attached : Option (List Char))

/-- The options of a program, and what becomes of its first operand if it takes one. -/
structure Grammar (σ : Type) where
  program : String
  rules : List (Rule σ)
  operand : Option (String → σ → σ)

namespace Grammar

variable {σ : Type}

def nameTable (g : Grammar σ) : List (String × Rule σ) :=
  g.rules.flatMap fun rule => rule.names.map fun name => (name, rule)

/-- Is it a dash with digits after it, of which some may stand behind a point? -/
def isNegativeNumber (argument : List Char) : Bool :=
  let isDigit := fun c => (decimalDigit? c).isSome
  match argument with
  | '-' :: number =>
    let number := if number.getLast? == some '\n' then number.dropLast else number
    match number.span isDigit with
    | (whole, []) => !whole.isEmpty
    | (_, '.' :: fraction) => !fraction.isEmpty && fraction.all isDigit
    | _ => false
  | _ => false

/-- Is the name a dash with a single letter? -/
def isShortName (name : List Char) : Bool :=
  match name with
  | ['-', letter] => letter != '-'
  | _ => false

def splitSign (argument : List Char) : List Char × Option (List Char) :=
  match argument.span (· != '=') with
  | (start, _ :: attached) => (start, some attached)
  | (start, []) => (start, none)

/-- The options that an argument may stand for, with what is attached to them: those with a long
name that it begins, or the one of a single letter. -/
def candidates (g : Grammar σ) (argument : List Char) : List (String × Reading σ) :=
  match argument with
  | '-' :: '-' :: _ =>
    let (start, attached) := splitSign argument
    g.nameTable.filterMap fun (name, rule) =>
      if start.isPrefixOf name.toList then some (name, .option rule false attached) else none
  | dash :: letter :: attached =>
    g.nameTable.filterMap fun (name, rule) =>
      if name.toList == [dash, letter] then some (name, .option rule true (some attached)) else none
  | _ => []

/-- The option that an argument names in full before a sign of equality. -/
def beforeSign? (g : Grammar σ) (argument : String) : Option (Reading σ) :=
  match splitSign argument.toList with
  | (name, some attached) =>
    (g.nameTable.lookup (String.ofList name)).map fun rule =>
      .option rule (isShortName name) (some attached)
  | (_, none) => none

/-- An argument with a dash that is no name of an option in full. -/
def classifyDashed (g : Grammar σ) (argument : String) : Except UsageFault (Reading σ) :=
  match g.beforeSign? argument with
  | some reading => .ok reading
  | none =>
    match g.candidates argument.toList with
    | [(_, reading)] => .ok reading
    | [] =>
      let isWord := isNegativeNumber argument.toList || argument.toList.contains ' '
      .ok (if isWord then .word else .unknown)
    | several => .error (.ambiguous argument (several.map (·.1)))

def classify (g : Grammar σ) (argument : String) : Except UsageFault (Reading σ) :=
  if !Text.hasPrefix argument "-" then .ok .word
  else
    match g.nameTable.lookup argument with
    | some rule => .ok (.option rule (isShortName argument.toList) none)
    | none => if argument == "-" then .ok .word else g.classifyDashed argument

def classifyAll (g : Grammar σ) : List String → Except UsageFault (List (String × Reading σ))
  | [] => .ok []
  | "--" :: rest => .ok (("--", .divider) :: rest.map fun argument => (argument, .word))
  | argument :: rest => do
    let reading ← g.classify argument
    return (argument, reading) :: (← classifyAll g rest)

/-! ## Options in one argument -/

/-- The options in one argument with their values; the last one may still want a value. -/
structure Cluster (σ : Type) where
  options : List (Rule σ × Option String)
  wants : Option (Rule σ) := none

def attachedValue (text : List Char) : Option String :=
  if text == ['-', '-'] then none else some (String.ofList text)

/-- An option with nothing attached to it. -/
def Cluster.alone (rule : Rule σ) : Cluster σ :=
  if rule.takesValue then ⟨[], some rule⟩ else ⟨[(rule, none)], none⟩

/-- Takes apart a short option and what is attached to it. After an option without a value the next
letter is an option too. -/
def cluster (g : Grammar σ) : Rule σ → List Char → Except UsageFault (Cluster σ)
  | rule, [] => .ok (.alone rule)
  | rule, letter :: rest =>
    if rule.takesValue then .ok ⟨[(rule, attachedValue (letter :: rest))], none⟩
    else
      match g.nameTable.lookup (String.ofList ['-', letter]) with
      | none => .error (.unusedValue rule.label (String.ofList (letter :: rest)))
      | some next => do
        let more ← cluster g next rest
        return { more with options := (rule, none) :: more.options }

/-- The options that an option and what is attached to it stand for. A sign of equality with nothing
after it still attaches an empty value. -/
def optionsOf (g : Grammar σ) (rule : Rule σ) (isShort : Bool) (attached : Option (List Char)) :
    Except UsageFault (Cluster σ) :=
  match attached with
  | none => .ok (.alone rule)
  | some text =>
    if rule.takesValue then .ok ⟨[(rule, attachedValue text)], none⟩
    else if isShort && !text.isEmpty then g.cluster rule text
    else .error (.unusedValue rule.label (String.ofList text))

/-! ## Reading the arguments -/

structure Progress (σ : Type) where
  state : σ
  hasOperand : Bool
  leftOver : List String

def applyAll (g : Grammar σ) : List (Rule σ × Option String) → σ → Except Stop σ
  | [], state => .ok state
  | (rule, value) :: rest, state =>
    match rule.effect, value with
    | .help, _ => .error (.help g.program)
    | .flag set, _ => applyAll g rest (set state)
    | .value set, value =>
      match set rule.label value state with
      | .ok state => applyAll g rest state
      | .error fault => .error (.refused g.program fault)

def Progress.leave (p : Progress σ) (arguments : List String) : Progress σ :=
  { p with leftOver := p.leftOver ++ arguments }

def wantsOperand (g : Grammar σ) (p : Progress σ) : Bool := g.operand.isSome && !p.hasOperand

def takeWord (g : Grammar σ) (word : String) (p : Progress σ) : Progress σ :=
  match g.operand, p.hasOperand with
  | some set, false => { p with state := set word p.state, hasOperand := true }
  | _, _ => p.leave [word]

def takeOptions (g : Grammar σ) (options : List (Rule σ × Option String)) (p : Progress σ) :
    Except Stop (Progress σ) := do
  return { p with state := ← g.applyAll options p.state }

/-- Reads the arguments from left to right. A divider disappears before the operand and right after
it; elsewhere it is left over. -/
def readAll (g : Grammar σ) :
    List (String × Reading σ) → Progress σ → Except Stop (Progress σ)
  | [], p => .ok p
  | (word, .word) :: (_, .divider) :: rest, p =>
    if g.wantsOperand p then readAll g rest (g.takeWord word p)
    else readAll g rest (p.leave [word, "--"])
  | (word, .word) :: rest, p => readAll g rest (g.takeWord word p)
  | (mark, .divider) :: rest, p =>
    readAll g rest (if g.wantsOperand p then p else p.leave [mark])
  | (argument, .unknown) :: rest, p => readAll g rest (p.leave [argument])
  | (_, .option rule isShort attached) :: rest, p =>
    match g.optionsOf rule isShort attached with
    | .error fault => .error (.refused g.program fault)
    | .ok ⟨options, none⟩ => do readAll g rest (← g.takeOptions options p)
    | .ok ⟨options, some last⟩ =>
      match rest with
      | (value, .word) :: rest => do
        readAll g rest (← g.takeOptions (options ++ [(last, some value)]) p)
      | _ => .error (.refused g.program (.noValue last.label))

def read (g : Grammar σ) (arguments : List String) (state : σ) : Except Stop (σ × List String) := do
  let readings ← (g.classifyAll arguments).mapError (.refused g.program)
  let p ← g.readAll readings ⟨state, false, []⟩
  return (p.state, p.leftOver)

end Grammar

end Surveyor.Command
