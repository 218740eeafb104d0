import AgentSurface.Catalog.Basic
import AgentSurface.Standard.Callout
import AgentSurface.Standard.DataTable
import AgentSurface.Standard.LinkPreview
import AgentSurface.Standard.OptionList
import AgentSurface.Standard.StatCard
import AgentSurface.Standard.Timeline

/-!
# Standard — the catalog

The six components that every host has.
-/

namespace AgentSurface.Standard

/-- The validator of a schema; one that is none accepts nothing. -/
def validator (schema : Json) : Schema.Validator :=
  (Schema.Validator.ofSchema? schema).getD
    (.ofFunction fun _ target => [⟨.schema, target, [], "no schema"⟩])

def timeline : Catalog.Entry :=
  { typeName := "Timeline"
    purpose := "A chronological timeline of dated events with an optional title slide."
    exampleData := Timeline.exampleData
    data := validator Timeline.schema }

def dataTable : Catalog.Entry :=
  { typeName := "DataTable"
    purpose := "A table of rows under labelled columns; row keys match column keys."
    exampleData := DataTable.exampleData
    data := validator DataTable.schema
    options := some (validator DataTable.optionsSchema)
    defaultOptions := DataTable.defaultOptions }

def statCard : Catalog.Entry :=
  { typeName := "StatCard"
    purpose := "A single headline metric with optional unit, delta and trend."
    exampleData := StatCard.exampleData
    data := validator StatCard.schema }

def callout : Catalog.Entry :=
  { typeName := "Callout"
    purpose := "A highlighted note; options.tone is info, success, warning or danger."
    exampleData := Callout.exampleData
    data := validator Callout.schema
    options := some (validator Callout.optionsSchema)
    defaultOptions := Callout.defaultOptions }

def linkPreview : Catalog.Entry :=
  { typeName := "LinkPreview"
    purpose := "A rich preview card for a URL."
    exampleData := LinkPreview.exampleData
    data := validator LinkPreview.schema }

def optionList : Catalog.Entry :=
  { typeName := "OptionList"
    purpose := "A list of choices the user can pick from; options.selection is single or multiple."
    exampleData := OptionList.exampleData
    data := validator OptionList.schema
    options := some (validator OptionList.optionsSchema)
    defaultOptions := OptionList.defaultOptions }

/-- The standard components. -/
def catalog : Catalog :=
  { entries := [timeline, dataTable, statCard, callout, linkPreview, optionList] }

end AgentSurface.Standard
