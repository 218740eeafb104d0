import AgentSurface.Jsx.Reader
import AgentSurface.Json.Printer
import AgentSurface.Stream.Block
import AgentSurface.Update.Envelope

/-!
# Stream — fences

Which lines open and close a fence, and what prose and the content of a fence stand for.  A line
opens a fence when it is, up to blanks around it, three backquotes and a tag, and closes one when
it is three backquotes alone.
-/

namespace AgentSurface.Stream

/-- How a stream is read. -/
structure Options where
  /-- Tags of JSON fences, up to the case of ASCII letters. -/
  jsonTags : List String := ["json"]
  /-- Tags of JSX fences, up to the case of ASCII letters. -/
  jsxTags : List String := ["jsx"]
  /-- How many bytes of text may be received. -/
  maxBytes : Nat := 4 * 1024 * 1024
  /-- A fence that is open at the end of the stream counts as closed there. -/
  closeAtEnd : Bool := true
deriving DecidableEq, Repr

/-! ### Marker lines -/

/-- Three backquotes. -/
def marker : List Char := List.replicate 3 '\x60'

/-- The kind of fence that a tag names; the tags of JSON are looked at first. -/
def Options.kindOf? (options : Options) (tag : String) : Option FenceKind :=
  if options.jsonTags.any (Text.sameTag · tag) then some .json
  else if options.jsxTags.any (Text.sameTag · tag) then some .jsx
  else none

/-- The kind of fence that a line opens. -/
def Options.opener? (options : Options) (line : List Char) : Option FenceKind :=
  let text := Text.trim line
  if marker.isPrefixOf text then
    options.kindOf? (String.ofList (Text.trim (text.drop marker.length)))
  else none

/-- The line closes an open fence. -/
def isCloser (line : List Char) : Bool := Text.trim line == marker

/-! ### Prose -/

/-- The text of a run of prose: without blanks at its end and without line breaks at its beginning.
A run of blanks has none. -/
def prose? (run : List Char) : Option (List Char) :=
  let text := (Text.trimEnd run).dropWhile Text.isBreak
  if text.all Text.isBlank then none else some text

/-- The blocks of a run of prose. -/
def proseBlocks (run : String) : List Block :=
  match prose? run.toList with
  | some text => [.text (String.ofList text)]
  | none => []

/-! ### Contents -/

/-- A JSON value in a fence of its own. -/
def fenced (raw : String) : String := "```json\n" ++ raw ++ "\n```"

/-- The blocks of a JSON value whose text is `raw`: surface updates, one alone or a list of them,
and otherwise the text in its fence. -/
def valueBlocks (raw : String) (v : Json) : List Block :=
  if Update.isEnvelope v then [.update v raw]
  else
    match v with
    | .array (first :: rest) =>
      if (first :: rest).all Update.isEnvelope then
        (first :: rest).map fun message => .update message message.compact
      else [.text (fenced raw)]
    | _ => [.text (fenced raw)]

/-- The blocks of a JSON text. -/
def jsonBlocks (raw : List Char) : List Block :=
  match Json.parse raw with
  | .ok v => valueBlocks (String.ofList raw) v
  | .error fault => [.fault .json (String.ofList raw) fault.message]

/-- The block of a JSX source. -/
def jsxBlocks (raw : List Char) : List Block :=
  match Jsx.parse raw with
  | .ok nodes => [.jsx (String.ofList raw) nodes]
  | .error fault => [.fault .jsx (String.ofList raw) fault.message]

/-- The blocks that the content of a fence stands for; line breaks at its end do not count. -/
def interpret (kind : FenceKind) (content : String) : List Block :=
  let raw := Text.dropEndWhile Text.isBreak content.toList
  match kind with
  | .json => jsonBlocks raw
  | .jsx => jsxBlocks raw

end AgentSurface.Stream
