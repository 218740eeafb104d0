import AgentSurface.Json.Record
import AgentSurface.Schema.FieldError
import AgentSurface.Stream.Block

/-!
# View — what the host shows

A view is a tree of nodes that the host turns into controls.  What can not be shown stands in the
tree as a fallback, with what the host may want to say about it.
-/

namespace AgentSurface

/-- What stands in place of something that can not be shown. -/
inductive Fallback where
  | unknownType (id typeName : String) (raw : Json)
  | validationError (id typeName : Option String) (errors : List Schema.FieldError) (raw : Json)
  | parseError (kind : Stream.FenceKind) (raw reason : String)
  | unknownComponent (name : String)
  | renderError (scope message : String)

/-- What a part of the view that is not settled is going to be; prose if it is in no fence. -/
abbrev StreamingKind := Option Stream.FenceKind

inductive View where
  | markdown (text : String)
  | text (text : String)
  /-- An element with its properties, the views in its slots by growing name, and its children. -/
  | element (name : String) (props : List (String × Json)) (slots : List (String × View))
      (children : List View)
  | component (id typeName : String) (data options : Json)
  | fragment (children : List View)
  | streaming (kind : StreamingKind) (content : String) (preview : Option Json)
  | fallback (f : Fallback)

namespace View

/-- A fallback for code that failed. -/
def renderError (scope message : String) : View := .fallback (.renderError scope message)

/-- An element without properties. -/
def plainElement (name : String) (children : List View) : View := .element name [] [] children

def asFallback? : View → Option Fallback
  | .fallback f => some f
  | _ => none

def isFallback (v : View) : Bool := v.asFallback?.isSome

def children : View → List View
  | .element _ _ _ children => children
  | .fragment children => children
  | _ => []

mutual

/-- All text of a view, in reading order; slots are read before children. -/
def textContent : View → String
  | .markdown t => t
  | .text t => t
  | .element _ _ slots children => slotsContent slots ++ listContent children
  | .component _ _ _ _ => ""
  | .fragment children => listContent children
  | .streaming _ content _ => content
  | .fallback _ => ""

def slotsContent : List (String × View) → String
  | [] => ""
  | (_, v) :: rest => textContent v ++ slotsContent rest

def listContent : List View → String
  | [] => ""
  | v :: rest => textContent v ++ listContent rest

end

end View

/-! ### Wire form -/

namespace Fallback

def name : Fallback → String
  | .unknownType _ _ _ => "unknownType"
  | .validationError _ _ _ _ => "validationError"
  | .parseError _ _ _ => "parseError"
  | .unknownComponent _ => "unknownComponent"
  | .renderError _ _ => "renderError"

def fields (f : Fallback) : Json.Fields :=
  ("fallback", .string f.name) ::
    match f with
    | .unknownType id typeName raw =>
      [("id", .string id), ("typeName", .string typeName), ("raw", raw)]
    | .validationError id typeName errors raw =>
      [("id", Json.orNull (id.map .string)), ("typeName", Json.orNull (typeName.map .string)),
        ("errors", .array (errors.map Schema.FieldError.toJson)), ("raw", raw)]
    | .parseError kind raw reason =>
      [("kind", .string kind.faultName), ("raw", .string raw), ("reason", .string reason)]
    | .unknownComponent name => [("name", .string name)]
    | .renderError scope message => [("scope", .string scope), ("message", .string message)]

def toJson (f : Fallback) : Json := .object f.fields

end Fallback

namespace View

def kindName : View → String
  | .markdown _ => "markdown"
  | .text _ => "text"
  | .element _ _ _ _ => "element"
  | .component _ _ _ _ => "component"
  | .fragment _ => "fragment"
  | .streaming _ _ _ => "streaming"
  | .fallback _ => "fallback"

def streamingName (kind : StreamingKind) : String :=
  match kind with
  | none => "text"
  | some kind => kind.name

mutual

def toJson : View → Json
  | .markdown t => .object [("node", .string "markdown"), ("text", .string t)]
  | .text t => .object [("node", .string "text"), ("text", .string t)]
  | .element name props slots children =>
    let filled : Json.Fields := if slots.isEmpty then [] else [("slots", .object (slotsToJson slots))]
    .object ([("node", .string "element"), ("name", .string name), ("props", .object props)] ++
      filled ++ [("children", .array (listToJson children))])
  | .component id typeName data options =>
    .object [("node", .string "component"), ("id", .string id), ("typeName", .string typeName),
      ("data", data), ("options", options)]
  | .fragment children =>
    .object [("node", .string "fragment"), ("children", .array (listToJson children))]
  | .streaming kind content preview =>
    .object [("node", .string "streaming"), ("kind", .string (streamingName kind)),
      ("partial", .string content), ("preview", Json.orNull preview)]
  | .fallback f => .object (("node", .string "fallback") :: f.fields)

def slotsToJson : List (String × View) → Json.Fields
  | [] => []
  | (name, v) :: rest => (name, toJson v) :: slotsToJson rest

def listToJson : List View → List Json
  | [] => []
  | v :: rest => toJson v :: listToJson rest

end

end View
end AgentSurface
