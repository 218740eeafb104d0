import AgentSurface.Text.Blank

/-!
# Jsx — text between elements

`normalize` gives the text node for the characters between two elements: with a line break in them,
their words one space apart; without, the characters with every run of blanks made one space.  No
node comes of a text without words, except that inside an element blanks in a line stay a space.
-/

namespace AgentSurface.Jsx

/-- The text that characters between elements stand for; `atTop` says that no element is open. -/
def normalize (raw : List Char) (atTop : Bool) : Option String :=
  let text :=
    if raw.contains '\n' then Text.unwords (Text.words raw)
    else if atTop && raw.all Text.isBlank then []
    else Text.squeeze raw
  if text.isEmpty then none else some (String.ofList text)

end AgentSurface.Jsx
