import AgentSurface.Json.Basic

/-!
# Jsx — trees

The restricted form of JSX is data and nothing to evaluate: an attribute or an expression holds a
literal, which is a JSON value, or the name of a component.
-/

namespace AgentSurface.Jsx

/-- How many elements, fragments and literal containers may be open at once. -/
def maxDepth : Nat := 64

/-- What stands in an attribute or an expression. -/
inductive Value where
  | literal (v : Json)
  /-- A dotted path of identifiers. -/
  | ident (path : String)
deriving BEq

structure Attribute where
  name : String
  value : Value
deriving BEq

inductive Node where
  | element (name : String) (attributes : List Attribute) (children : List Node)
  | fragment (children : List Node)
  | text (text : String)
  | expression (value : Value)
deriving BEq

/-- The value of the first attribute with this name. -/
def Attribute.find? (attributes : List Attribute) (name : String) : Option Value :=
  (attributes.find? (·.name == name)).map (·.value)

/-! ### Wire form -/

def Value.toJson : Value → Json
  | .literal v => .object [("kind", .string "literal"), ("value", v)]
  | .ident path => .object [("kind", .string "ident"), ("value", .string path)]

def Attribute.toJson (a : Attribute) : Json :=
  .object [("name", .string a.name), ("value", a.value.toJson)]

mutual

def Node.toJson : Node → Json
  | .element name attributes children =>
    .object [("node", .string "element"), ("name", .string name),
      ("attrs", .array (attributes.map Attribute.toJson)),
      ("children", .array (Node.listToJson children))]
  | .fragment children =>
    .object [("node", .string "fragment"), ("children", .array (Node.listToJson children))]
  | .text content => .object [("node", .string "text"), ("text", .string content)]
  | .expression value => .object [("node", .string "expr"), ("value", value.toJson)]

def Node.listToJson : List Node → List Json
  | [] => []
  | n :: rest => Node.toJson n :: Node.listToJson rest

end

end AgentSurface.Jsx
