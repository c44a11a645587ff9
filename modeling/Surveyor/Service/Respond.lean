import Surveyor.Pipeline.Engine
import Surveyor.Service.Description
import Surveyor.Service.Request

/-! # Answers of the service

One address tells that the service is alive, another analyses a project, and the others describe the
service.
-/

namespace Surveyor.Service

/-- A request: its method, the path it asks for and its body, which is empty if it
has none. -/
structure Request where
  method : String
  path : String
  body : ByteArray

inductive Body where
  | value (v : Value)
  /-- What is wrong with the body of the request. -/
  | faults (faults : List BodyFault)
  /-- A page to look at. -/
  | page
  /-- Nothing: what is asked for is at another path. -/
  | empty

structure Response where
  status : Nat
  body : Body

def remark (status : Nat) (text : String) : Response :=
  ⟨status, .value (.map [("detail", .str text)])⟩

/-! ## Addresses -/

inductive Address where
  | description
  | manual
  | signIn
  | reference
  | health
  | analyze
  deriving DecidableEq, Repr

namespace Address

def path : Address → String
  | .description => "/openapi.json"
  | .manual => "/docs"
  | .signIn => "/docs/oauth2-redirect"
  | .reference => "/redoc"
  | .health => "/health"
  | .analyze => "/analyze"

def methods : Address → List String
  | .health => ["GET"]
  | .analyze => ["POST"]
  | _ => ["GET", "HEAD"]

/-- The address at a path; a newline at the end does not matter. -/
def ofPath? (path : String) : Option Address :=
  [description, manual, signIn, reference, health, analyze].find? fun address =>
    address.path == path || address.path ++ "\n" == path

/-- Is there an address at the path without the slashes at its end? -/
def isBeside (path : String) : Bool :=
  Text.hasSuffix path "/" && (ofPath? (Text.stripRight (· == '/') path)).isSome

end Address

/-! ## Analyses -/

/-- Is it the request, or the project, that a run without a report is put down to? -/
def isRefusal : RunError → Bool
  | .discovery (.unknown _) | .order _ | .clock (.invalid _) => true
  | .settings (.undecodable _) | .settings (.impossible (.impossible _)) => true
  | _ => false

mutual

/-- Can an answer hold a value as it is? What is not a number, and what is infinite, it cannot. -/
def isAnswerable : Value → Bool
  | .float x => !(x.isNaN || x.isInf)
  | .list items | .tuple items | .set items => areAnswerable items
  | .map entries | .view entries => areAnswerableEntries entries
  | _ => true

def areAnswerable : List Value → Bool
  | [] => true
  | item :: rest => isAnswerable item && areAnswerable rest

def areAnswerableEntries : List (String × Value) → Bool
  | [] => true
  | (_, v) :: rest => isAnswerable v && areAnswerableEntries rest

end

mutual

/-- A value as an answer can hold it: what is not a number, and what is infinite, becomes null. -/
def answerable : Value → Value
  | .float x => if x.isNaN || x.isInf then .null else .float x
  | .list items | .tuple items | .set items => .list (answerableItems items)
  | .map entries | .view entries => .map (answerableEntries entries)
  | v => v

def answerableItems : List Value → List Value
  | [] => []
  | item :: rest => answerable item :: answerableItems rest

def answerableEntries : List (String × Value) → List (String × Value)
  | [] => []
  | (key, v) :: rest => (key, answerable v) :: answerableEntries rest

end

def report (around : Surroundings) (readings : List Quantity) (project : Project) :
    Except RunError Response :=
  match (analyze around {} project (.start none false readings)).result with
  | .ok entries => .ok ⟨200, .value (answerable (.map entries))⟩
  | .error (.precondition message) => .ok (remark 404 message)
  | .error fault => if isRefusal fault then .ok (remark 400 fault.message) else .error fault

/-- The answer to a body with faults, which quotes what is given in their places. -/
def refuse (faults : List BodyFault) : Response :=
  if faults.all fun fault => isAnswerable fault.given then ⟨422, .faults faults⟩
  else remark 400 "Out of range float values are not JSON compliant"

def answerAt (around : Surroundings) (readings : List Quantity) (body : ByteArray) :
    Address → Except RunError Response
  | .description => .ok ⟨200, .value description⟩
  | .manual | .signIn | .reference => .ok ⟨200, .page⟩
  | .health => .ok ⟨200, .value (.map [("status", .str "ok"), ("version", .str reportVersion)])⟩
  | .analyze =>
    match projectOfBody body with
    | .ok project => report around readings project
    | .error (.faults faults) => .ok (refuse faults)
    | .error .unreadable => .ok (remark 400 "There was an error parsing the body")

/-- Answers a request; a fault of the analysis for which the service has no answer is passed on. Who
asks for a path beside an address is sent there. -/
def respond (around : Surroundings) (readings : List Quantity) (request : Request) :
    Except RunError Response :=
  match Address.ofPath? request.path with
  | some address =>
    if address.methods.contains request.method then
      answerAt around readings request.body address
    else .ok (remark 405 "Method Not Allowed")
  | none =>
    .ok (if Address.isBeside request.path then ⟨307, .empty⟩ else remark 404 "Not Found")

end Surveyor.Service
