import AgentSurface.Json.Record
import AgentSurface.Standard.Form

/-!
# Standard — notes

A highlighted note in one of four tones.
-/

namespace AgentSurface.Standard.Callout

/-- What a note is about. -/
inductive Tone where
  | info
  | success
  | warning
  | danger
deriving DecidableEq, Repr

/-- A note, with a title over it or without one. -/
structure Data where
  title : Option String := none
  body : String
deriving DecidableEq, Repr

structure Options where
  tone : Tone := .info
deriving DecidableEq, Repr

/-- The names of the tones. -/
def Tone.names : List (String × Tone) :=
  [("info", .info), ("success", .success), ("warning", .warning), ("danger", .danger)]

def Tone.name : Tone → String
  | .info => "info"
  | .success => "success"
  | .warning => "warning"
  | .danger => "danger"

/-! ### Reading -/

/-- Read the data of a note. -/
def Data.ofJson? (v : Json) : Option Data := do
  let r ← Json.Record.of? ["title", "body"] v
  let title ← r.field? "title" Json.string?
  let body ← r.field "body" Json.string?
  return { title, body }

/-- Read the options of a note; one without a tone is for information. -/
def Options.ofJson? (v : Json) : Option Options := do
  let r ← Json.Record.of? ["tone"] v
  let tone ← r.fieldD "tone" .info (Json.choice? Tone.names)
  return { tone }

/-! ### Writing -/

def Data.toJson (d : Data) : Json :=
  .object (Json.maybe "title" .string d.title ++ [("body", .string d.body)])

def Options.toJson (o : Options) : Json := .object [("tone", .string o.tone.name)]

/-! ### Schemas and example -/

open Form

/-- The schema of the data, as hosts and models are shown it. -/
def schema : Json :=
  document "CalloutData" "提示框数据"
    (record [("title", nullable "string"), ("body", typed "string")] ["body"]) []

def optionsSchema : Json :=
  record [("tone", choice ["info", "success", "warning", "danger"])] []

/-- The options of a note that is sent without any. -/
def defaultOptions : Json.Fields := [("tone", .string "info")]

def exampleData : Json :=
  Data.toJson { title := some "Heads up", body := "Rates change on Monday." }

end AgentSurface.Standard.Callout
