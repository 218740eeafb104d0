import AgentSurface.Json.Record
import AgentSurface.Standard.Form

/-!
# Standard — tables

Rows of members under labelled columns.
-/

namespace AgentSurface.Standard.DataTable

/-- Where the cells of a column stand. -/
inductive Align where
  | left
  | center
  | right
deriving DecidableEq, Repr

/-- A column shows the members of the rows under its key. -/
structure Column where
  key : String
  label : String
  align : Option Align := none
deriving DecidableEq, Repr

/-- Rows are objects with any members, also such as no column shows. -/
structure Data where
  columns : List Column
  rows : List Json.Fields
  caption : Option String := none

/-- How a table is shown. -/
structure Options where
  sortable : Bool := false
  /-- A number of 32 bits without sign. -/
  pageSize : Option Int := none
deriving DecidableEq, Repr

/-- The names of the alignments. -/
def Align.names : List (String × Align) := [("left", .left), ("center", .center), ("right", .right)]

def Align.name : Align → String
  | .left => "left"
  | .center => "center"
  | .right => "right"

/-! ### Reading -/

/-- Read a column; `null` for the alignment is no alignment. -/
def Column.ofJson? (v : Json) : Option Column := do
  let r ← Json.Record.of? ["key", "label", "align"] v
  let key ← r.field "key" Json.string?
  let label ← r.field "label" Json.string?
  let align ← r.field? "align" (Json.choice? Align.names)
  return { key, label, align }

/-- Read the data of a table, with rows that are objects. -/
def Data.ofJson? (v : Json) : Option Data := do
  let r ← Json.Record.of? ["columns", "rows", "caption"] v
  let columns ← r.field "columns" (Json.list? Column.ofJson?)
  let rows ← r.field "rows" (Json.list? Json.anyFields?)
  let caption ← r.field? "caption" Json.string?
  return { columns, rows, caption }

/-- Read the options of a table; a table without them can not be sorted. -/
def Options.ofJson? (v : Json) : Option Options := do
  let r ← Json.Record.of? ["sortable", "pageSize"] v
  let sortable ← r.fieldD "sortable" false Json.bool?
  let pageSize ← r.field? "pageSize" (Json.intBetween? 0 4294967295)
  return { sortable, pageSize }

/-! ### Writing -/

def Column.toJson (c : Column) : Json :=
  .object ([("key", .string c.key), ("label", .string c.label)] ++
    Json.maybe "align" (fun a => .string (Align.name a)) c.align)

def Data.toJson (d : Data) : Json :=
  .object ([("columns", .array (d.columns.map Column.toJson)), ("rows", .array (d.rows.map .object))] ++
    Json.maybe "caption" .string d.caption)

def Options.toJson (o : Options) : Json :=
  .object ([("sortable", .bool o.sortable)] ++
    Json.maybe "pageSize" (fun n => Json.orNull ((Json.Number.ofInt? n).map .number)) o.pageSize)

/-! ### Schemas and example -/

open Form

/-- The schema of the data, as hosts and models are shown it. -/
def schema : Json :=
  document "DataTableData" "表格数据"
    (record
      [("columns", listOf (ref "DataTableColumn")),
        ("rows", listOf (withBack [("additionalProperties", .bool true)] (typed "object"))),
        ("caption", nullable "string")]
      ["columns", "rows"])
    [("DataTableColumn", described "表格列"
        (record
          [("key", typed "string"), ("label", typed "string"), ("align", nullableRef "ColumnAlign")]
          ["key", "label"])),
      ("ColumnAlign", described "列对齐方式" (choice ["left", "center", "right"]))]

/-- The schema of the options.  It does not say how large a page may be. -/
def optionsSchema : Json :=
  record
    [("sortable", typed "boolean"),
      ("pageSize", withBack [("minimum", Json.ofNat 0)] (nullable "integer"))]
    []

/-- The options of a table that is sent without any. -/
def defaultOptions : Json.Fields := [("sortable", .bool false)]

/-- A table with an aligned column and one row. -/
def exampleData : Json :=
  Data.toJson
    { columns :=
        [{ key := "name", label := "Name" },
          { key := "stars", label := "Stars", align := some .right }]
      rows := [[("name", .string "serde"), ("stars", Json.ofNat 9000)]] }

end AgentSurface.Standard.DataTable
