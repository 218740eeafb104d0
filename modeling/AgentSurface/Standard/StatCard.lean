import AgentSurface.Json.Record
import AgentSurface.Standard.Form

/-!
# Standard — metrics

A single figure, or a text in its place, with unit, change and trend.
-/

namespace AgentSurface.Standard.StatCard

/-- The figure, or a text that stands for it. -/
inductive Value where
  | number (n : Json.Number)
  | text (text : String)

/-- Where the figure goes. -/
inductive Trend where
  | up
  | down
  | flat
deriving DecidableEq, Repr

/-- A figure with its label, and what is told of it. -/
structure Data where
  label : String
  value : Value
  unit : Option String := none
  delta : Option Json.Number := none
  trend : Option Trend := none

/-- The names of the trends. -/
def Trend.names : List (String × Trend) := [("up", .up), ("down", .down), ("flat", .flat)]

def Trend.name : Trend → String
  | .up => "up"
  | .down => "down"
  | .flat => "flat"

/-! ### Reading -/

/-- Read a value: every number is a figure, and every string a text. -/
def Value.ofJson? (v : Json) : Option Value :=
  match v with
  | .number n => some (.number n.widen)
  | .string s => some (.text s)
  | _ => none

/-- Read the data of a metric. -/
def Data.ofJson? (v : Json) : Option Data := do
  let r ← Json.Record.of? ["label", "value", "unit", "delta", "trend"] v
  let label ← r.field "label" Json.string?
  let value ← r.field "value" Value.ofJson?
  let unit ← r.field? "unit" Json.string?
  let delta ← r.field? "delta" Json.real?
  let trend ← r.field? "trend" (Json.choice? Trend.names)
  return { label, value, unit, delta, trend }

/-! ### Writing -/

def Value.toJson : Value → Json
  | .number n => .number n
  | .text t => .string t

def Data.toJson (d : Data) : Json :=
  .object ([("label", .string d.label), ("value", d.value.toJson)] ++
    Json.maybe "unit" .string d.unit ++ Json.maybe "delta" .number d.delta ++
    Json.maybe "trend" (fun t => .string (Trend.name t)) d.trend)

/-! ### Schema and example -/

open Form

/-- The schema of the data, as hosts and models are shown it. -/
def schema : Json :=
  document "StatCardData" "指标卡数据"
    (record
      [("label", typed "string"), ("value", ref "StatValue"), ("unit", nullable "string"),
        ("delta", withBack [("format", .string "double")] (nullable "number")),
        ("trend", nullableRef "Trend")]
      ["label", "value"])
    [("StatValue", described "指标值（数字或已格式化文本）"
        (.object [("anyOf", .array
          [withBack [("format", .string "double")] (typed "number"), typed "string"])])),
      ("Trend", described "趋势方向" (choice ["up", "down", "flat"]))]

def exampleData : Json :=
  .object [("label", .string "Revenue"), ("value", Json.ofNat 1200), ("unit", .string "USD"),
    ("trend", .string "up")]

end AgentSurface.Standard.StatCard
