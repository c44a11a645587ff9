import Surveyor.Json.Writer
import Surveyor.Report.Markdown

/-! # Formats of a report -/

namespace Surveyor

inductive ReportFormat where
  | json
  | markdown
  deriving DecidableEq, Repr

namespace ReportFormat

def name : ReportFormat → String
  | .json => "json"
  | .markdown => "markdown"

def all : List ReportFormat := [.json, .markdown]

def ofName? (name : String) : Option ReportFormat := all.find? (·.name == name)

def render (report : Value) : ReportFormat → Except MarkdownError String
  | .json => .ok (Json.document report)
  | .markdown => Markdown.document report

@[simp]
theorem ofName?_name (format : ReportFormat) : ofName? format.name = some format := by
  cases format <;> rfl

end ReportFormat

end Surveyor
