import AgentSurface.Json.Reader

/-!
# Json — preview of an unfinished text

A text that breaks off can often be read after a repair: its open string is closed, a comma at its
end is dropped or a colon completed, and its open containers are closed.  `preview` tries that with
the whole text, and then with the text before each of its last eight commas outside strings, the
last comma first.  The text is scanned once; a `Nesting` is what the scan knows at a place.
-/

namespace AgentSurface.Json

/-- What is open at a place of a text; the closing characters, innermost first. -/
structure Nesting where
  inString : Bool := false
  escaped : Bool := false
  closers : List Char := []
deriving DecidableEq, Repr

/-- Go past a character. -/
def Nesting.step (n : Nesting) (c : Char) : Nesting :=
  if n.inString then
    if n.escaped then { n with escaped := false }
    else if c = '\\' then { n with escaped := true }
    else if c = '"' then { n with inString := false }
    else n
  else if c = '"' then { n with inString := true }
  else if c = '{' then { n with closers := '}' :: n.closers }
  else if c = '[' then { n with closers := ']' :: n.closers }
  else if c = '}' ∨ c = ']' then { n with closers := n.closers.tail }
  else n

/-- A comma outside strings: how many characters stand before it, and what is open there. -/
structure Cut where
  length : Nat
  nesting : Nesting
deriving DecidableEq, Repr

/-- How many commas are remembered. -/
def maxCuts : Nat := 8

/-- What the scan knows behind `length` characters; the last commas are kept latest first. -/
structure Scan where
  length : Nat := 0
  nesting : Nesting := {}
  cuts : List Cut := []
deriving DecidableEq, Repr

/-- Go past a character. -/
def Scan.step (s : Scan) (c : Char) : Scan :=
  { length := s.length + 1
    nesting := s.nesting.step c
    cuts :=
      if c = ',' ∧ s.nesting.inString = false then
        (⟨s.length, s.nesting⟩ :: s.cuts).take maxCuts
      else s.cuts }

/-- Scan a text from its beginning. -/
def scan (text : List Char) : Scan := text.foldl Scan.step {}

/-- The text with its open string closed, if it is in one. -/
def closeOpenString (n : Nesting) (text : List Char) : List Char :=
  if n.inString then (if n.escaped then text.dropLast else text) ++ ['"'] else text

/-- The text without a comma at its end, or with `null` behind a colon at its end. -/
def dropSeparator (text : List Char) : List Char :=
  match text.getLast? with
  | some ',' => text.dropLast
  | some ':' => text ++ ['n', 'u', 'l', 'l']
  | _ => text

/-- The text with all that is open in it closed. -/
def repair (text : List Char) (n : Nesting) : List Char :=
  dropSeparator (Text.trimEnd (closeOpenString n (Text.trimEnd text))) ++ n.closers

/-- Read the repaired text. -/
def closeAndParse (text : List Char) (n : Nesting) : Option Json := parse? (repair text n)

/-- The value that an unfinished text seems to become; nothing if it has none to show. -/
def preview (source : List Char) : Option Json :=
  let text := Text.trim source
  if text.isEmpty then none
  else
    match parse? text with
    | some v => some v
    | none =>
      let scanned := scan text
      match closeAndParse text scanned.nesting with
      | some v => some v
      | none =>
        scanned.cuts.findSome? fun cut => closeAndParse (text.take cut.length) cut.nesting

end AgentSurface.Json
