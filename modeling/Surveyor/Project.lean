import Surveyor.Settings.Basic
import Surveyor.Text.Basic

/-! # Projects -/

namespace Surveyor

/-- What the caller says about the project to analyse. All but its path is taken as it is given. -/
structure Project where
  rootPath : String
  name : Value := .null
  excludedFolders : Value := .list []
  projectType : Value := .str "auto"
  framework : Value := .null

namespace Project

/-- The given name, or the last component of the root path. -/
def displayName (p : Project) : Value :=
  p.name.orElse
    (.str (Text.baseName (Text.stripRight (· == '/') (Text.replaceChar '\\' '/' p.rootPath))))

/-- The project at its canonical root, with what it leaves open taken from the settings. -/
def effective (p : Project) (root : String) (settings : Settings) : Project :=
  let own := p.projectType.orElse (.str "auto")
  { p with
    rootPath := root
    projectType := if own.str? == some "auto" then settings.projectType.orElse own else own
    framework := p.framework.orElse settings.framework }

end Project

end Surveyor
