import AgentSurface.Catalog.Entry
import AgentSurface.Text.Blank

/-!
# Catalog — the types of components

A catalog maps type names to entries, in the order in which the names were first registered.  Its
prompt teaches a model to write messages with these types.
-/

namespace AgentSurface

structure Catalog where
  /-- The entries, no type name twice. -/
  entries : List Catalog.Entry := []

namespace Catalog

/-- A type name that is empty or has blanks in it. -/
inductive RegisterError where
  | invalidTypeName (name : String)
deriving DecidableEq, Repr

def RegisterError.message : RegisterError → String
  | .invalidTypeName name => "invalid component type name: " ++ Text.inQuotes name

/-- The name can be a type name. -/
def isTypeName (name : String) : Bool := !name.isEmpty && !name.toList.any Text.isBlank

/-- The entry of a type name. -/
def get? (c : Catalog) (typeName : String) : Option Entry :=
  c.entries.find? (·.typeName == typeName)

def has (c : Catalog) (typeName : String) : Bool := (c.get? typeName).isSome

def typeNames (c : Catalog) : List String := c.entries.map (·.typeName)

/-- The catalog calls no code that panics when it checks a payload. -/
def Pure (c : Catalog) : Prop := ∀ e ∈ c.entries, e.Pure

/-- Put an entry into a list: in the place of the entry of its name, else last. -/
def put : List Entry → Entry → List Entry
  | [], e => [e]
  | first :: rest, e => if first.typeName == e.typeName then e :: rest else first :: put rest e

/-- Register an entry; gives the entry that it replaces, too. -/
def register (c : Catalog) (e : Entry) : Except RegisterError (Option Entry × Catalog) :=
  if isTypeName e.typeName then .ok (c.get? e.typeName, { entries := put c.entries e })
  else .error (.invalidTypeName e.typeName)

/-! ### The prompt -/

/-- How a message is written. -/
def promptHeader : String :=
  "You can render interactive UI components by emitting a fenced ```json block " ++
  "containing an A2UI message:\n" ++
  "\x7b\"surfaceUpdate\":\x7b\"components\":[\x7b\"id\":\"<unique id>\",\"component\":" ++
  "\x7b\"<TypeName>\":\x7b\"data\":\x7b...\x7d,\"options\":\x7b...\x7d\x7d\x7d\x7d]\x7d\x7d\n" ++
  "Each entry has exactly one type name under \"component\". " ++
  "Reusing an id replaces that component in place.\n" ++
  "Available component types:"

/-- The schema of an entry, in a fence of its own. -/
def schemaText (e : Entry) : String :=
  match e.data.schema with
  | some schema => "\nData schema:\n```json\n" ++ schema.compact ++ "\n```"
  | none => ""

/-- The part of the prompt about one type. -/
def promptSection (withSchemas : Bool) (e : Entry) : String :=
  "\n\n" ++ e.describe ++ (if withSchemas then schemaText e else "")

/-- The prompt; an empty catalog has none. -/
def prompt (c : Catalog) (withSchemas : Bool := false) : String :=
  if c.entries.isEmpty then ""
  else promptHeader ++ String.join (c.entries.map (promptSection withSchemas)) ++ "\n"

/-- The type names in a listing. -/
def listing (c : Catalog) : String := Text.listInQuotes c.typeNames

end Catalog
end AgentSurface
