import AgentSurface.Json.Printer
import AgentSurface.Json.Record
import AgentSurface.Update.Envelope

/-!
# Update — messages

The form of a surface update that is built here and sent.  A component of an update has an
identifier, and a payload under the name of its type.  What is received is not taken for a message
but checked as plain JSON.
-/

namespace AgentSurface.Update

structure Payload where
  data : Json := .null
  options : Option Json := none

/-- A component; a message that is built has one type name and payload in it. -/
structure Component where
  id : String
  payloads : List (String × Payload)

structure Message where
  components : List Component

/-! ### Building -/

namespace Component

/-- A component without options. -/
def new (id typeName : String) (data : Json) : Component :=
  { id, payloads := [(typeName, { data })] }

/-- Give the first payload options. -/
def withOptions (c : Component) (options : Json) : Component :=
  match c.payloads with
  | (name, payload) :: rest =>
    { c with payloads := (name, { payload with options := some options }) :: rest }
  | [] => c

/-- The type name, if there is exactly one. -/
def typeName? (c : Component) : Option String :=
  match c.payloads with
  | [(name, _)] => some name
  | _ => none

end Component

/-! ### Wire form -/

def Payload.toJson (p : Payload) : Json :=
  .object (("data", p.data) :: Json.maybe "options" id p.options)

def Component.toJson (c : Component) : Json :=
  .object [("id", .string c.id),
    ("component", .object (c.payloads.map fun (name, payload) => (name, payload.toJson)))]

def Message.toJson (m : Message) : Json :=
  .object [(updateKey, .object [(componentsKey, .array (m.components.map Component.toJson))])]

def Payload.ofJson? (v : Json) : Option Payload := do
  let r ← Json.Record.of? ["data", "options"] v
  let data ← r.fieldD "data" .null Json.any?
  let options ← r.field? "options" Json.any?
  return { data, options }

def Component.ofJson? (v : Json) : Option Component := do
  let r ← Json.Record.of? ["id", "component"] v
  let id ← r.field "id" Json.string?
  let payloads ← r.field "component" (Json.members? Payload.ofJson?)
  return { id, payloads }

def Message.ofJson? (v : Json) : Option Message := do
  let r ← Json.Record.of? [updateKey] v
  let components ← r.field updateKey fun update => do
    let r ← Json.Record.of? [componentsKey] update
    r.field componentsKey (Json.list? Component.ofJson?)
  return { components }

/-- The message in a fence, indented. -/
def Message.fenced (m : Message) : String := "```json\n" ++ m.toJson.pretty ++ "\n```"

end AgentSurface.Update
