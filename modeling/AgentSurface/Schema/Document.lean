import AgentSurface.Schema.JsonSchema

/-!
# Schema — reading a schema

`Schema.Document.ofJson?` reads a JSON Schema.  It refuses a value that is no schema: neither an
object nor a truth value, with a keyword of a wrong form, or with a reference that leads nowhere.
-/

namespace AgentSurface.Schema

/-- No element stands in the list twice. -/
def distinct (names : List String) : Bool :=
  match names with
  | [] => true
  | name :: rest => !rest.contains name && distinct rest

/-- Strings, none of them twice. -/
def distinctStrings? (v : Json) : Option (List String) :=
  v.items?.bind fun items =>
    (items.mapM Json.string?).bind fun names => if distinct names then some names else none

/-- One name of a type, or several. -/
def typeNames? (v : Json) : Option (List Json.TypeName) :=
  match v with
  | .string name => (Json.TypeName.ofName? name).map ([·])
  | _ =>
    (distinctStrings? v).bind fun names =>
      if names.isEmpty then none else names.mapM Json.TypeName.ofName?

/-- The keywords whose value is a text that says nothing about instances. -/
def textKeywords : List String :=
  ["title", "description", "format", "$schema", "$id", "$comment", "$anchor"]

/-- The name in a reference to a definition. -/
def referenceName? (v : Json) : Option String :=
  v.string?.bind fun text =>
    let start := "#/$defs/".toList
    if start.isPrefixOf text.toList then
      some (String.ofList (Json.unescapeToken (text.toList.drop start.length)))
    else none

/-- A keyword that holds no schema; nothing comes of one that says nothing about instances. -/
def plainKeyword? (defined : List String) (key : String) (v : Json) : Option (List Schema) :=
  if key = "type" then (typeNames? v).map fun names => [.types names]
  else if key = "required" then (distinctStrings? v).map fun names => [.required names]
  else if key = "enum" then v.items?.map fun values => [.enumeration values]
  else if key = "minimum" then v.number?.map fun limit => [.minimum limit]
  else if key = "maximum" then v.number?.map fun limit => [.maximum limit]
  else if key = "$ref" then
    (referenceName? v).bind fun name =>
      if defined.contains name then some [.reference name] else none
  else if textKeywords.contains key then v.string?.map fun _ => []
  else some []

mutual

/-- Read a schema; `defined` are the names that it may refer to. -/
def ofJson? (defined : List String) : Json → Option Schema
  | .bool accepts => some (.constant accepts)
  | .object fields => (keywords? defined fields).map .all
  | _ => none

/-- Read the keywords of a schema. -/
def keywords? (defined : List String) : List (String × Json) → Option (List Schema)
  | [] => some []
  | (key, v) :: rest =>
    let first : Option (List Schema) :=
      if key = "items" then (ofJson? defined v).map fun schema => [.each schema]
      else if key = "additionalProperties" then (ofJson? defined v).map fun _ => []
      else if key = "properties" then (members? defined v).map fun schemas => [.properties schemas]
      else if key = "$defs" then (members? defined v).map fun _ => []
      else if key = "anyOf" then
        (elements? defined v).bind fun schemas =>
          if schemas.isEmpty then none else some [.anyOf schemas]
      else plainKeyword? defined key v
    first.bind fun schemas => (keywords? defined rest).map (schemas ++ ·)

/-- Read the schemas under the keys of an object. -/
def members? (defined : List String) : Json → Option (List (String × Schema))
  | .object fields => named? defined fields
  | _ => none

def named? (defined : List String) : List (String × Json) → Option (List (String × Schema))
  | [] => some []
  | (key, v) :: rest =>
    (ofJson? defined v).bind fun schema => (named? defined rest).map ((key, schema) :: ·)

/-- Read the schemas in an array. -/
def elements? (defined : List String) : Json → Option (List Schema)
  | .array items => listed? defined items
  | _ => none

def listed? (defined : List String) : List Json → Option (List Schema)
  | [] => some []
  | v :: rest =>
    (ofJson? defined v).bind fun schema => (listed? defined rest).map (schema :: ·)

end

/-- Read a schema with its definitions. -/
def Document.ofJson? (v : Json) : Option Document :=
  let definitions := (v.get? "$defs").getD Json.emptyObject
  let defined := (definitions.fields?.getD []).map (·.1)
  (Schema.ofJson? defined v).bind fun root =>
    (members? defined definitions).map fun definitions => { root, definitions }

end AgentSurface.Schema
