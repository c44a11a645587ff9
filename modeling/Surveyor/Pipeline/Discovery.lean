import Surveyor.Pipeline.Stage
import Surveyor.Text.LowerCase

/-! # Discovery of stages

Stages are registered under names that are compared without regard to case: first the built-in
ones, then those of plug-ins. The first stage registered under a name wins.
-/

namespace Surveyor

inductive Provision where
  | stage (s : Stage)
  | notAStage
  /-- It cannot be loaded. -/
  | broken (reason : String)

structure Registration where
  name : String
  provision : Provision

inductive DiscoveryError where
  | notAStage
  | broken (name reason : String)
  | unknown (names : List String)
  deriving DecidableEq, Repr

def DiscoveryError.message : DiscoveryError → String
  | .notAStage => "Stage entry point must be a Stage subclass or factory"
  | .broken name reason => "Failed to load stage entry point '" ++ name ++ "': " ++ reason
  | .unknown names => "Unknown stages requested: " ++ Text.join ", " names

def isEnabled (enabled : Option (List String)) (key : String) : Bool :=
  match enabled with
  | none => true
  | some keys => keys.contains key

/-- The enabled stages, each with its name in lower case. Every registration is loaded, whether it is
enabled or not. -/
def collectStages (enabled : Option (List String)) :
    List String → List Registration → Except DiscoveryError (List (String × Stage))
  | _, [] => .ok []
  | seen, registration :: rest =>
    let key := lower registration.name
    let isWanted := isEnabled enabled key && !seen.contains key
    match registration.provision with
    | .broken reason => .error (.broken registration.name reason)
    | .notAStage => if isWanted then .error .notAStage else collectStages enabled seen rest
    | .stage s =>
      if isWanted then
        (collectStages enabled (key :: seen) rest).map ((key, s) :: ·)
      else collectStages enabled seen rest

/-- The registered stages in their order; only the enabled ones if names are given, all of which must
be known. -/
def discoverStages (registrations : List Registration) (enabled : Option (List String)) :
    Except DiscoveryError (List Stage) :=
  let keys := enabled.map (·.map lower)
  match collectStages keys [] registrations with
  | .error e => .error e
  | .ok found =>
    let unknown := (keys.getD []).filter fun key => !found.any (·.1 == key)
    if unknown.isEmpty then .ok (found.map (·.2))
    else .error (.unknown (Text.distinctSorted unknown))

end Surveyor
