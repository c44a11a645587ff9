import Surveyor.Pipeline.Record

/-! # The description of the service

The service describes its addresses, and the objects it takes and gives, in the form of a schema.
-/

namespace Surveyor.Service

namespace Schema

def titled (title type : String) : Value := .map [("title", .str title), ("type", .str type)]

def optionalText (title : String) : Value :=
  .map [("anyOf", .list [.map [("type", .str "string")], .map [("type", .str "null")]]),
    ("title", .str title)]

def listOf (title : String) (items : Value) : Value :=
  .map [("items", items), ("type", .str "array"), ("title", .str title)]

def object (title : String) (properties : Entries) (required : List String) : Value :=
  .map ([("properties", Value.map properties), ("type", Value.str "object")]
    ++ (if required.isEmpty then [] else [("required", Value.strings required)])
    ++ [("title", Value.str title)])

/-- Points to an object that is described elsewhere. -/
def reference (name : String) : Value :=
  .map [("$ref", .str ("#/components/schemas/" ++ name))]

def content (schema : Value) : Value :=
  .map [("application/json", .map [("schema", schema)])]

def response (description : String) (schema : Value) : Value :=
  .map [("description", .str description), ("content", content schema)]

def objects : Entries :=
  [("AnalyzeRequest", object "AnalyzeRequest"
      [("path", titled "Path" "string"), ("name", optionalText "Name"),
        ("excluded_folders", listOf "Excluded Folders" (.map [("type", .str "string")])),
        ("project_type", .map [("type", .str "string"), ("title", .str "Project Type"),
          ("default", .str "auto")]),
        ("framework", optionalText "Framework")]
      ["path"]),
    ("HTTPValidationError", object "HTTPValidationError"
      [("detail", listOf "Detail" (reference "ValidationError"))] []),
    ("HealthResponse", object "HealthResponse"
      [("status", titled "Status" "string"), ("version", titled "Version" "string")]
      ["status", "version"]),
    ("ValidationError", object "ValidationError"
      [("loc", listOf "Location" (.map [("anyOf", .list [.map [("type", .str "string")],
          .map [("type", .str "integer")]])])),
        ("msg", titled "Message" "string"), ("type", titled "Error Type" "string")]
      ["loc", "msg", "type"])]

def healthPath : Value :=
  .map [("get", .map [("summary", .str "Health"), ("operationId", .str "health_health_get"),
    ("responses", .map [("200", response "Successful Response" (reference "HealthResponse"))])])]

def analyzePath : Value :=
  let report := Value.map [("type", .str "object"), ("additionalProperties", .bool true),
    ("title", .str "Response Analyze Analyze Post")]
  .map [("post", .map [("summary", .str "Analyze"), ("operationId", .str "analyze_analyze_post"),
    ("requestBody", .map [("content", content (reference "AnalyzeRequest")),
      ("required", .bool true)]),
    ("responses", .map [("200", response "Successful Response" report),
      ("422", response "Validation Error" (reference "HTTPValidationError"))])])]

end Schema

def description : Value :=
  .map [("openapi", .str "3.1.0"),
    ("info", .map [("title", .str "CodeInspector Service"), ("version", .str reportVersion)]),
    ("paths", .map [("/health", Schema.healthPath), ("/analyze", Schema.analyzePath)]),
    ("components", .map [("schemas", .map Schema.objects)])]

end Surveyor.Service
