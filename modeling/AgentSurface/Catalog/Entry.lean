import AgentSurface.Json.Printer
import AgentSurface.Schema.Validator
import AgentSurface.Text.Lowercase
import AgentSurface.Text.Quoted
import AgentSurface.Update.Message
import AgentSurface.View.Basic

/-!
# Catalog — entries

An entry says what a type of component is for, what payloads it takes, and how it is shown.
-/

namespace AgentSurface.Catalog

/-- Why code of the host could not show something. -/
inductive RenderError where
  | component (typeName message : String)
  | unknownIdentifier (name : String)
  | panicked (message : String)
deriving DecidableEq, Repr

def RenderError.message : RenderError → String
  | .component typeName message => "component " ++ typeName ++ " failed to render: " ++ message
  | .unknownIdentifier name => "unknown identifier `" ++ name ++ "`"
  | .panicked message => "render panicked: " ++ message

/-- What a component is shown from. -/
structure ComponentProps where
  id : String
  typeName : String
  data : Json
  options : Json

/-- Code of the host that shows a component. -/
abbrev Renderer := ComponentProps → Host (Except RenderError View)

structure Entry where
  typeName : String
  /-- What the component is for, in a sentence. -/
  purpose : String
  /-- The smallest data that make sense. -/
  exampleData : Json := Json.emptyObject
  data : Schema.Validator
  options : Option Schema.Validator := none
  /-- The options that hold where none are given. -/
  defaultOptions : Json.Fields := []
  render : Option Renderer := none

namespace Entry

/-- The entry calls no code that panics when it checks a payload. -/
def Pure (e : Entry) : Prop := e.data.Pure ∧ ∀ v, e.options = some v → v.Pure

/-- The errors of some data. -/
def validateData (e : Entry) (data : Json) : Host (List Schema.FieldError) :=
  e.data.check data .data

/-- The options laid over the default options; nothing stands for no options, as `null` does. -/
def mergeOptions (e : Entry) (given : Option Json) : Except (List Schema.FieldError) Json.Fields :=
  match given with
  | none | some .null => .ok e.defaultOptions
  | some (.object fields) => .ok (e.defaultOptions.merge fields)
  | some other =>
    .error [⟨.schema, .options, [], other.compact ++ " is not of type \"object\""⟩]

/-- The options that hold for a component, or what is wrong with those given. -/
def resolveOptions (e : Entry) (given : Option Json) :
    Host (Except (List Schema.FieldError) Json) :=
  match e.mergeOptions given with
  | .error errors => .ok (.error errors)
  | .ok merged =>
    match e.options with
    | none => .ok (.ok (.object merged))
    | some validator => do
      let errors ← validator.check (.object merged) .options
      return if errors.isEmpty then .ok (.object merged) else .error errors

/-- A message with the example as its only component. -/
def exampleMessage (e : Entry) : Update.Message :=
  ⟨[.new (Text.lowercase e.typeName ++ "-1") e.typeName e.exampleData]⟩

/-- Type name, purpose and example. -/
def describe (e : Entry) : String :=
  "### " ++ e.typeName ++ "\n" ++ e.purpose ++ "\nExample:\n```json\n" ++
    e.exampleMessage.toJson.compact ++ "\n```"

/-- The entry in a listing. -/
def listing (e : Entry) : String :=
  "CatalogEntry \x7b type_name: " ++ Text.inQuotes e.typeName ++ ", purpose: " ++
    Text.inQuotes e.purpose ++ ", has_options_schema: " ++ toString e.options.isSome ++
    ", has_render: " ++ toString e.render.isSome ++ " \x7d"

end Entry
end AgentSurface.Catalog
