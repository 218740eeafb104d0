import AgentSurface.Json.Record
import AgentSurface.Standard.Form

/-!
# Standard — links

A card that previews an address.
-/

namespace AgentSurface.Standard.LinkPreview

/-- An address, and what is told of the page there. -/
structure Data where
  url : String
  title : Option String := none
  description : Option String := none
  image : Option String := none
deriving DecidableEq, Repr

/-- Read the data of a link. -/
def Data.ofJson? (v : Json) : Option Data := do
  let r ← Json.Record.of? ["url", "title", "description", "image"] v
  let url ← r.field "url" Json.string?
  let title ← r.field? "title" Json.string?
  let description ← r.field? "description" Json.string?
  let image ← r.field? "image" Json.string?
  return { url, title, description, image }

def Data.toJson (d : Data) : Json :=
  .object ([("url", .string d.url)] ++ Json.maybe "title" .string d.title ++
    Json.maybe "description" .string d.description ++ Json.maybe "image" .string d.image)

/-! ### Schema and example -/

open Form

/-- The schema of the data, as hosts and models are shown it. -/
def schema : Json :=
  document "LinkPreviewData" "链接预览数据"
    (record
      [("url", typed "string"), ("title", nullable "string"), ("description", nullable "string"),
        ("image", nullable "string")]
      ["url"])
    []

def exampleData : Json :=
  Data.toJson { url := "https://www.rust-lang.org", title := some "Rust" }

end AgentSurface.Standard.LinkPreview
