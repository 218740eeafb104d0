import AgentSurface.Json.Basic
import AgentSurface.Text.Numeral
import AgentSurface.Text.Split

/-!
# Json — paths

A path leads from a value to a place in it, by keys of objects and indices of arrays.  A JSON
Pointer spells a path as text, with `~0` for `~` and `~1` for `/` in a key.  The text does not tell
keys from indices: `Path.ofPointer` walks along the value and reads a token as an index where it
meets an array.
-/

namespace AgentSurface.Json

inductive Segment where
  | key (key : String)
  | index (i : Nat)
deriving DecidableEq, Repr

abbrev Path := List Segment

def Segment.text : Segment → String
  | .key k => k
  | .index i => "[" ++ toString i ++ "]"

/-- The segments with points between them; the empty path is the root. -/
def Path.text : Path → String
  | [] => "<root>"
  | segments => String.intercalate "." (segments.map Segment.text)

/-! ### Pointers -/

/-- Undo the escapes of a token. -/
def unescapeToken : List Char → List Char
  | [] => []
  | [c] => [c]
  | c :: d :: rest =>
    if c = '~' ∧ d = '1' then '/' :: unescapeToken rest
    else if c = '~' ∧ d = '0' then '~' :: unescapeToken rest
    else c :: unescapeToken (d :: rest)

/-- Escape a key as a token. -/
def escapeToken : List Char → List Char
  | [] => []
  | c :: rest =>
    if c = '~' then '~' :: '0' :: escapeToken rest
    else if c = '/' then '~' :: '1' :: escapeToken rest
    else c :: escapeToken rest

/-- The path that tokens spell from a value, or from nowhere if the way is lost. -/
def Path.ofTokens (current : Option Json) : List (List Char) → Path
  | [] => []
  | token :: rest =>
    let text := unescapeToken token
    match current with
    | some (.array items) =>
      match Text.word? text with
      | some i => .index i :: Path.ofTokens items[i]? rest
      | none => .key (String.ofList text) :: Path.ofTokens none rest
    | some (.object fields) =>
      let key := String.ofList text
      .key key :: Path.ofTokens (Fields.get? fields key) rest
    | _ => .key (String.ofList text) :: Path.ofTokens none rest

/-- The path that a pointer spells in a value; what stands before its first slash is left out. -/
def Path.ofPointer (instance_ : Json) (pointer : String) : Path :=
  Path.ofTokens (some instance_) ((Text.split '/' pointer.toList).drop 1)

/-- The pointer that spells a path. -/
def Path.pointer (path : Path) : String :=
  String.ofList (path.flatMap fun
    | .key k => '/' :: escapeToken k.toList
    | .index i => '/' :: Nat.toDigits 10 i)

/-! ### Wire form -/

def Segment.toJson : Segment → Json
  | .key k => .string k
  | .index i => Json.ofNat i

def Segment.ofJson? (v : Json) : Option Segment :=
  match v with
  | .string k => some (.key k)
  | _ => v.nat?.map .index

def Path.toJson (path : Path) : Json := .array (path.map Segment.toJson)

def Path.ofJson? (v : Json) : Option Path := v.items?.bind fun items => items.mapM Segment.ofJson?

end AgentSurface.Json
