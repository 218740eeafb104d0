import AgentSurface.Json.Basic

/-!
# Standard — forms of schemas

The pieces that the schemas of the standard components are built from.
-/

namespace AgentSurface.Standard.Form

/-- A value of a type. -/
def typed (name : String) : Json := .object [("type", .string name)]

/-- A value of a type, or `null`. -/
def nullable (name : String) : Json :=
  .object [("type", .array [.string name, .string "null"])]

/-- A value that a definition describes. -/
def ref (name : String) : Json := .object [("$ref", .string ("#/$defs/" ++ name))]

/-- A value that a definition describes, or `null`. -/
def nullableRef (name : String) : Json :=
  .object [("anyOf", .array [ref name, typed "null"])]

/-- An array of values of one form. -/
def listOf (item : Json) : Json := .object [("type", .string "array"), ("items", item)]

/-- A text out of a list. -/
def choice (names : List String) : Json :=
  .object [("type", .string "string"), ("enum", Json.ofStrings names)]

/-- An object with these members, of which some are required. -/
def record (members : Json.Fields) (required : List String) : Json :=
  .object ([("type", .string "object"), ("properties", .object members)] ++
    if required.isEmpty then [] else [("required", Json.ofStrings required)])

/-- Lay members in front of a form. -/
def withFront (front : Json.Fields) (form : Json) : Json :=
  match form with
  | .object fields => .object (front ++ fields)
  | other => other

/-- Lay members behind a form. -/
def withBack (back : Json.Fields) (form : Json) : Json :=
  match form with
  | .object fields => .object (fields ++ back)
  | other => other

/-- A form with a description. -/
def described (text : String) (form : Json) : Json :=
  withFront [("description", .string text)] form

/-- A whole schema, with its definitions. -/
def document (title description : String) (form : Json) (definitions : Json.Fields) : Json :=
  withFront
    [("$schema", .string "https://json-schema.org/draft/2020-12/schema"), ("title", .string title),
      ("description", .string description)]
    (withBack (if definitions.isEmpty then [] else [("$defs", .object definitions)]) form)

end AgentSurface.Standard.Form
