import AgentSurface.Json.Record
import AgentSurface.Standard.Form

/-!
# Standard — choices

Options that the user can pick, one or several of them.
-/

namespace AgentSurface.Standard.OptionList

/-- How many choices may be picked. -/
inductive Selection where
  | single
  | multiple
deriving DecidableEq, Repr

/-- A choice, told by its identifier. -/
structure Item where
  id : String
  label : String
  description : Option String := none
deriving DecidableEq, Repr

/-- The choices, and what the user is asked. -/
structure Data where
  prompt : Option String := none
  options : List Item
deriving DecidableEq, Repr

/-- How the user picks. -/
structure Options where
  selection : Selection := .single
  /-- A number of 32 bits without sign. -/
  maxSelections : Option Int := none
deriving DecidableEq, Repr

/-- The names of the ways to select. -/
def Selection.names : List (String × Selection) := [("single", .single), ("multiple", .multiple)]

def Selection.name : Selection → String
  | .single => "single"
  | .multiple => "multiple"

/-! ### Reading -/

/-- Read a choice; `null` for the description is no description. -/
def Item.ofJson? (v : Json) : Option Item := do
  let r ← Json.Record.of? ["id", "label", "description"] v
  let id ← r.field "id" Json.string?
  let label ← r.field "label" Json.string?
  let description ← r.field? "description" Json.string?
  return { id, label, description }

/-- Read the data of a list of choices. -/
def Data.ofJson? (v : Json) : Option Data := do
  let r ← Json.Record.of? ["prompt", "options"] v
  let prompt ← r.field? "prompt" Json.string?
  let options ← r.field "options" (Json.list? Item.ofJson?)
  return { prompt, options }

/-- Read the options of a list of choices; without them one choice may be picked. -/
def Options.ofJson? (v : Json) : Option Options := do
  let r ← Json.Record.of? ["selection", "maxSelections"] v
  let selection ← r.fieldD "selection" .single (Json.choice? Selection.names)
  let maxSelections ← r.field? "maxSelections" (Json.intBetween? 0 4294967295)
  return { selection, maxSelections }

/-! ### Writing -/

def Item.toJson (i : Item) : Json :=
  .object ([("id", .string i.id), ("label", .string i.label)] ++
    Json.maybe "description" .string i.description)

def Data.toJson (d : Data) : Json :=
  .object (Json.maybe "prompt" .string d.prompt ++
    [("options", .array (d.options.map Item.toJson))])

def Options.toJson (o : Options) : Json :=
  .object ([("selection", .string o.selection.name)] ++
    Json.maybe "maxSelections" (fun n => Json.orNull ((Json.Number.ofInt? n).map .number))
      o.maxSelections)

/-! ### Schemas and example -/

open Form

/-- The schema of the data, as hosts and models are shown it. -/
def schema : Json :=
  document "OptionListData" "选项列表数据"
    (record [("prompt", nullable "string"), ("options", listOf (ref "OptionItem"))] ["options"])
    [("OptionItem", described "单个选项"
      (record
        [("id", typed "string"), ("label", typed "string"), ("description", nullable "string")]
        ["id", "label"]))]

/-- The schema of the options.  It does not say how many picks are too many. -/
def optionsSchema : Json :=
  record
    [("selection", choice ["single", "multiple"]),
      ("maxSelections", withBack [("minimum", Json.ofNat 0)] (nullable "integer"))]
    []

/-- The options of a list of choices that is sent without any. -/
def defaultOptions : Json.Fields := [("selection", .string "single")]

/-- Two plans to pick from. -/
def exampleData : Json :=
  Data.toJson
    { prompt := some "Pick a plan"
      options := [{ id := "basic", label := "Basic" }, { id := "pro", label := "Pro" }] }

end AgentSurface.Standard.OptionList
