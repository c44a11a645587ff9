import Surveyor.Command.Options
import Surveyor.Number.Numeral
import Surveyor.Report.Format

/-! # Requests on the command line

The first operand names a command; what stands before it are options of the program, and everything
after it belongs to the command.
-/

namespace Surveyor.Command

inductive PathChoice where
  | notAsked
  | path (path : String)
  /-- The option is there, and its path is left out. -/
  | leftOut
  deriving DecidableEq, Repr

def PathChoice.ofValue (value : Option String) : PathChoice := value.elim .leftOut .path

structure AnalyzeRequest where
  path : String := "."
  excluded : List String := []
  projectType : String := "auto"
  framework : Option String := none
  format : ReportFormat := .json
  /-- The file that the report goes to, if not to the standard output. -/
  output : PathChoice := .notAsked
  logFile : PathChoice := .notAsked
  quiet : Bool := false
  verbose : Bool := false
  deriving DecidableEq, Repr

structure ServeRequest where
  host : String := "127.0.0.1"
  port : Int := 8000
  verbose : Bool := false
  deriving DecidableEq, Repr

inductive Request where
  | analyze (request : AnalyzeRequest)
  | serve (request : ServeRequest)
  deriving DecidableEq, Repr

def helpRule {σ : Type} : Rule σ := ⟨["-h", "--help"], .help⟩

def verboseRule {σ : Type} (set : σ → σ) : Rule σ := ⟨["-v", "--verbose"], .flag set⟩

/-- An option whose value is taken as it is, even if it is left out. -/
def valueRule {σ : Type} (names : List String) (set : Option String → σ → σ) : Rule σ :=
  ⟨names, .value fun _ value state => .ok (set value state)⟩

/-- An option whose value is a text, which is `standIn` if it is left out. -/
def textRule {σ : Type} (name standIn : String) (set : String → σ → σ) : Rule σ :=
  valueRule [name] fun value => set (value.getD standIn)

def setFormat (label : String) (value : Option String) (r : AnalyzeRequest) :
    Except UsageFault AnalyzeRequest :=
  match value with
  | none => .ok { r with format := .json }
  | some name =>
    match ReportFormat.ofName? name with
    | some format => .ok { r with format := format }
    | none => .error (.noChoice label name (ReportFormat.all.map ReportFormat.name))

def setPort (label : String) (value : Option String) (r : ServeRequest) :
    Except UsageFault ServeRequest :=
  match value with
  | none => .ok r
  | some digits =>
    match Numeral.whole 10 digits with
    | .ok port => .ok { r with port := port }
    | .error _ => .error (.noWholeNumber label digits)

def programName : String := "codeinspector"

def analyzeGrammar : Grammar AnalyzeRequest where
  program := programName ++ " analyze"
  rules := [
    helpRule,
    verboseRule fun r => { r with verbose := true },
    textRule "--exclude" "[]" fun name r => { r with excluded := r.excluded ++ [name] },
    textRule "--project-type" "" fun type r => { r with projectType := type },
    textRule "--framework" "" fun framework r => { r with framework := some framework },
    ⟨["--format"], .value setFormat⟩,
    valueRule ["--output", "-o"] fun path r => { r with output := .ofValue path },
    valueRule ["--log-file"] fun path r => { r with logFile := .ofValue path },
    ⟨["--quiet", "-q"], .flag fun r => { r with quiet := true }⟩]
  operand := some fun path r => { r with path := path }

def serveGrammar : Grammar ServeRequest where
  program := programName ++ " serve"
  rules := [
    helpRule,
    verboseRule fun r => { r with verbose := true },
    textRule "--host" "" fun host r => { r with host := host },
    ⟨["--port"], .value setPort⟩]
  operand := none

/-- The options before the command; the state is whether the program is to be verbose. -/
def programGrammar : Grammar Bool where
  program := programName
  rules := [helpRule, verboseRule fun _ => true]
  operand := none

def commandNames : List String := ["analyze", "serve"]

def Request.ofCommand (verbose : Bool) (name : String) (arguments : List String) :
    Except Stop (Request × List String) :=
  match name with
  | "analyze" =>
    (analyzeGrammar.read arguments { verbose := verbose }).map fun (r, rest) => (.analyze r, rest)
  | "serve" =>
    (serveGrammar.read arguments { verbose := verbose }).map fun (r, rest) => (.serve r, rest)
  | _ => .error (.refused programName (.noChoice "command" name commandNames))

/-- Does the command begin here, or the part without options? -/
def startsCommand : Reading Bool → Bool
  | .word | .divider => true
  | .unknown | .option _ _ _ => false

def Request.read (arguments : List String) : Except Stop Request := do
  let refuse := Stop.refused programName
  let readings ← (programGrammar.classifyAll arguments).mapError refuse
  let (before, command) := readings.span (!startsCommand ·.2)
  let p ← programGrammar.readAll before ⟨false, false, []⟩
  match command with
  | [] | [(_, .divider)] => .error (refuse .noCommand)
  | (name, _) :: rest =>
    let (request, leftOver) ← ofCommand p.state name (rest.map (·.1))
    let leftOver := p.leftOver ++ leftOver
    if leftOver.isEmpty then return request
    else .error (refuse (.leftOver leftOver))

end Surveyor.Command
