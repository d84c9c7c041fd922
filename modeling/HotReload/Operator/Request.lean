import HotReload.Settings.Fault
import HotReload.Value.Printer
import HotReload.Value.Reader

/-!
# Operator requests

What an operator sends and gets back, and the reading of request bodies.
-/
namespace HotReload.Operator

structure Request where
  method : String
  /-- The path, without a query. -/
  path : String
  headers : List (String × String) := []
  body : String := ""

inductive Content where
  | json (v : Value)
  /-- The request's data is rejected. -/
  | rejected (faults : List FieldFault)
  | text (s : String)

structure Response where
  status : Nat
  content : Content
  /-- The origin that may read the response. -/
  allowedOrigin : Option String := none

def lowerAscii (s : String) : String := s.map Char.toLower

namespace Request

/-- A header, whose name counts in any case. -/
def header? (r : Request) (name : String) : Option String :=
  (r.headers.find? fun (k, _) => lowerAscii k = name).map (·.2)

/-- The media type of the body, without parameters. -/
def mediaType (r : Request) : String :=
  let value := (r.header? "content-type").getD ""
  lowerAscii ((value.takeWhile (· ≠ ';')).trimAscii.toString)

/-- Whether the body is to be read as JSON. -/
def hasJson (r : Request) : Bool :=
  match r.mediaType.splitOn "/" with
  | ["application", subtype] => subtype = "json" || subtype.endsWith "+json"
  | _ => false

end Request

/-- A detail of an error, as a response. -/
def detail (status : Nat) (text : String) : Response :=
  ⟨status, .json (.record [("detail", .text text)]), none⟩

def missing (place : List FieldStep) : FieldFault := ⟨"missing", place, "Field required"⟩

/-- The text without a mark of byte order. -/
def withoutMark (s : String) : String :=
  match s.toList with
  | '\ufeff' :: rest => String.ofList rest
  | _ => s

/-- The value of a body: nothing for an empty one, and a text unless it is JSON. -/
def readBody (r : Request) : Except FieldFault (Option Value) :=
  if r.body = "" then .ok none
  else if r.hasJson then
    match Value.ofJson (withoutMark r.body) with
    | .ok v => .ok (some v)
    | .error fault =>
      .error ⟨"json_invalid", [.name "body", .index fault.offset], "JSON decode error"⟩
  else .ok (some (.text r.body))

/-- The paths of a list, with the places of the items that are none. -/
def readItems : Nat → List Value → List String × List FieldFault
  | _, [] => ([], [])
  | n, item :: rest =>
    let (paths, faults) := readItems (n + 1) rest
    match item with
    | .text s => (s :: paths, faults)
    | _ =>
      (paths, ⟨"string_type", [.name "body", .name "paths", .index n],
        "Input should be a valid string"⟩ :: faults)

/-- The paths that a body names, at least one. -/
def readPaths : Option Value → Except (List FieldFault) (List String)
  | none | some .null => .error [missing [.name "body"]]
  | some (.record fields) =>
    match Value.field? "paths" fields with
    | none => .error [missing [.name "body", .name "paths"]]
    | some (.list items) =>
      match readItems 0 items with
      | ([], []) =>
        .error [⟨"too_short", [.name "body", .name "paths"],
          "List should have at least 1 item after validation, not 0"⟩]
      | (paths, []) => .ok paths
      | (_, faults) => .error faults
    | some _ =>
      .error [⟨"list_type", [.name "body", .name "paths"], "Input should be a valid list"⟩]
  | some _ =>
    .error [⟨"model_attributes_type", [.name "body"],
      "Input should be a valid dictionary or object to extract fields from"⟩]

end HotReload.Operator
