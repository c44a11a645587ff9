import Surveyor.Value.Access

/-! # Settings of an analysis

Settings that are handed to an analysis directly can be of any kind. A number that is of no use is a
fault where it is used, and only there.
-/

namespace Surveyor

/-- The settings of a project, with the values they have unless the project sets them. -/
structure Settings where
  /-- The directory the settings belong to. -/
  root : String
  excludePaths : Value := .list []
  projectType : Value := .null
  framework : Value := .null
  /-- The stages to run; all if none is named. -/
  enabledStages : List String := []
  /-- Larger files are listed, but not read. -/
  maxFileSize : Int := 5 * 1024 * 1024
  /-- How many characters of a file are looked through for names and branches, if not all. -/
  scanCharLimit : Except ValueFault (Option Int) := .ok (some 1000000)
  /-- Progress is reported at every multiple of this number of files. -/
  progressInterval : Except ValueFault Int := .ok 50
  deadCommentMinLines : Except ValueFault Int := .ok 8
  complexityThreshold : Except ValueFault Int := .ok 10
  /-- How many days a change of a file is marked in the tree. -/
  recentDays : Int := 7

namespace Settings

/-- The interval of reports on a number of files. Progress is always reported at the last file, so
that the interval is not looked at for a single one. -/
def intervalFor (s : Settings) (files : Nat) : Except ValueFault Int :=
  if files ≤ 1 then .ok 1 else s.progressInterval

end Settings

end Surveyor
