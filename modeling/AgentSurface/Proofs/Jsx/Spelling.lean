import AgentSurface.Jsx.Reader
import AgentSurface.Json.Printer
import AgentSurface.Proofs.Json.Writable

/-!
# Jsx — how trees are spelled

`Spells` is the restricted grammar: it says which sources are spellings of which trees, without
regard to how a source is read.  Blanks, quotes, comments and the form of a tag are left open, so a
tree has many spellings.

* `Literal.Spells`: literals, in a list or an object with or without a comma at the end.
* `SpellsAttributes`: the attributes of a tag.
* `Spells`: nodes, and the children of one element together.

Characters between two nodes are one run: where a text stands, no layout can.  `Node.nesting` counts
the elements, fragments and literal containers around the deepest place of a node.
-/

namespace AgentSurface.Jsx

open Text (isBlank)

/-! ### Nesting -/

def Value.nesting : Value → Nat
  | .literal v => v.nesting
  | .ident _ => 0

def nestingAttributes : List Attribute → Nat
  | [] => 0
  | a :: rest => max a.value.nesting (nestingAttributes rest)

mutual

def Node.nesting : Node → Nat
  | .element _ attributes children => max (nestingAttributes attributes) (nestingNodes children) + 1
  | .fragment children => nestingNodes children + 1
  | .text _ => 0
  | .expression v => v.nesting

def nestingNodes : List Node → Nat
  | [] => 0
  | n :: rest => max n.nesting (nestingNodes rest)

end

/-! ### Names and paths -/

def Blanks (s : List Char) : Prop := ∀ c ∈ s, isBlank c = true

/-- A name of an element or an attribute. -/
structure IsName (name : List Char) : Prop where
  chars : ∃ c rest, name = c :: rest ∧ isNameStart c = true ∧ ∀ d ∈ rest, isNameRest d = true
  last : name.getLast? ≠ some '.'

/-- One part of a path. -/
def IsIdentifier (s : List Char) : Prop :=
  ∃ c rest, s = c :: rest ∧ isIdentStart c = true ∧
    ∀ d ∈ rest, isIdentStart d = true ∨ d.isDigit = true

/-- A dotted path of identifiers. -/
inductive IsPath : List Char → Prop where
  | one {s : List Char} (h : IsIdentifier s) : IsPath s
  | dot {s rest : List Char} (h : IsIdentifier s) (hrest : IsPath rest) : IsPath (s ++ '.' :: rest)

/-- The words that are literals and no paths. -/
def literalWords : List String := ["true", "false", "null"]

/-! ### Strings of literals -/

/-- What a character behind a backslash stands for. -/
inductive Escape : Char → Char → Prop where
  | feed : Escape 'n' '\n'
  | tab : Escape 't' '\t'
  | carriage : Escape 'r' '\r'
  | backspace : Escape 'b' '\x08'
  | formFeed : Escape 'f' '\x0c'
  | itself {c : Char} (h : c ∉ ['u', 'n', 't', 'r', 'b', 'f']) : Escape c c

/-- The characters of a string, and how they are spelled inside these quotes. -/
inductive Quoted (quote : Char) : List Char → List Char → Prop where
  | done : Quoted quote [] []
  | plain {c : Char} {text s : List Char} (hquote : c ≠ quote) (hslash : c ≠ '\\')
    (h : Quoted quote text s) : Quoted quote (c :: text) (c :: s)
  | escape {c meant : Char} {text s : List Char} (hmeant : Escape c meant)
    (h : Quoted quote text s) : Quoted quote (meant :: text) ('\\' :: c :: s)
  /-- Four hexadecimal digits. -/
  | code {c₁ c₂ c₃ c₄ : Char} {d₁ d₂ d₃ d₄ : Nat} {text s : List Char}
    (h₁ : Text.hexDigit? c₁ = some d₁) (h₂ : Text.hexDigit? c₂ = some d₂)
    (h₃ : Text.hexDigit? c₃ = some d₃) (h₄ : Text.hexDigit? c₄ = some d₄)
    (hvalid : (((d₁ * 16 + d₂) * 16 + d₃) * 16 + d₄).isValidChar) (h : Quoted quote text s) :
    Quoted quote (Char.ofNat (((d₁ * 16 + d₂) * 16 + d₃) * 16 + d₄) :: text)
      ('\\' :: 'u' :: c₁ :: c₂ :: c₃ :: c₄ :: s)

/-- A key of an object is a string, or a path as it stands. -/
inductive SpellsKey : String → List Char → Prop where
  | quoted {quote : Char} {key : String} {s : List Char} (hquote : isQuote quote = true)
    (h : Quoted quote key.toList s) : SpellsKey key (quote :: s ++ [quote])
  | path {key : String} (h : IsPath key.toList) : SpellsKey key key.toList

/-! ### Literals -/

/-- A literal, or a part of one. -/
inductive Literal where
  | value (v : Json)
  /-- The elements of a list that stand behind its bracket or a comma, and its other bracket. -/
  | items (items : List Json)
  | member (key : String) (v : Json)
  /-- The members of an object that stand behind its brace or a comma, and its other brace. -/
  | members (members : Json.Fields)

inductive Literal.Spells : Literal → List Char → Prop where
  | null : Literal.Spells (.value .null) ['n', 'u', 'l', 'l']
  | yes : Literal.Spells (.value (.bool true)) ['t', 'r', 'u', 'e']
  | no : Literal.Spells (.value (.bool false)) ['f', 'a', 'l', 's', 'e']
  | number (n : Json.Whole) : Literal.Spells (.value (.number (.whole n))) (Json.renderInt n.val)
  | string {quote : Char} {text : String} {s : List Char} (hquote : isQuote quote = true)
    (h : Quoted quote text.toList s) :
    Literal.Spells (.value (.string text)) (quote :: s ++ [quote])
  | array {items : List Json} {s : List Char} (h : Literal.Spells (.items items) s) :
    Literal.Spells (.value (.array items)) ('[' :: s)
  | object {members : Json.Fields} {s : List Char} (hkeys : members.keys.Nodup)
    (h : Literal.Spells (.members members) s) :
    Literal.Spells (.value (.object members)) ('{' :: s)
  | noItem {b : List Char} (hb : Blanks b) : Literal.Spells (.items []) (b ++ [']'])
  | lastItem {v : Json} {b s b' : List Char} (hb : Blanks b) (h : Literal.Spells (.value v) s)
    (hb' : Blanks b') : Literal.Spells (.items [v]) (b ++ s ++ b' ++ [']'])
  | item {v : Json} {items : List Json} {b s b' rest : List Char} (hb : Blanks b)
    (h : Literal.Spells (.value v) s) (hb' : Blanks b')
    (hrest : Literal.Spells (.items items) rest) :
    Literal.Spells (.items (v :: items)) (b ++ s ++ b' ++ ',' :: rest)
  | member {key : String} {v : Json} {k b b' s : List Char} (hkey : SpellsKey key k)
    (hb : Blanks b) (hb' : Blanks b') (h : Literal.Spells (.value v) s) :
    Literal.Spells (.member key v) (k ++ b ++ ':' :: b' ++ s)
  | noMember {b : List Char} (hb : Blanks b) : Literal.Spells (.members []) (b ++ ['}'])
  | lastMember {key : String} {v : Json} {b s b' : List Char} (hb : Blanks b)
    (h : Literal.Spells (.member key v) s) (hb' : Blanks b') :
    Literal.Spells (.members [(key, v)]) (b ++ s ++ b' ++ ['}'])
  | more {key : String} {v : Json} {members : Json.Fields} {b s b' rest : List Char}
    (hb : Blanks b) (h : Literal.Spells (.member key v) s) (hb' : Blanks b')
    (hrest : Literal.Spells (.members members) rest) :
    Literal.Spells (.members ((key, v) :: members)) (b ++ s ++ b' ++ ',' :: rest)

/-- What stands between braces. -/
inductive SpellsValue : Value → List Char → Prop where
  | literal {v : Json} {s : List Char} (h : Literal.Spells (.value v) s) :
    SpellsValue (.literal v) s
  | ident {path : String} (h : IsPath path.toList) (hword : path ∉ literalWords) :
    SpellsValue (.ident path) path.toList

/-! ### Attributes -/

/-- What stands behind the name of an attribute; `named` says that nothing does, so that the name
ends the attribute. -/
inductive Assigns : Value → Bool → List Char → Prop where
  | bare : Assigns (.literal (.bool true)) true []
  | quoted {quote : Char} {text : String} {b b' : List Char} (hb : Blanks b) (hb' : Blanks b')
    (hquote : isQuote quote = true) (htext : quote ∉ text.toList) :
    Assigns (.literal (.string text)) false (b ++ '=' :: b' ++ quote :: text.toList ++ [quote])
  | braced {v : Value} {b b₁ b₂ s b₃ : List Char} (hb : Blanks b) (hb₁ : Blanks b₁)
    (hb₂ : Blanks b₂) (hv : SpellsValue v s) (hb₃ : Blanks b₃) :
    Assigns v false (b ++ '=' :: b₁ ++ '{' :: b₂ ++ s ++ b₃ ++ ['}'])

/-- The attributes that stand behind a name, if `named`, or behind a value, up to the end of the
tag. Behind a name there are blanks before the next one. -/
inductive SpellsAttributes : Bool → List Attribute → List Char → Prop where
  | done {named : Bool} {b : List Char} (hb : Blanks b) : SpellsAttributes named [] b
  | more {named named' : Bool} {name : String} {v : Value} {attributes : List Attribute}
    {b s rest : List Char} (hb : Blanks b) (hgap : named = true → b ≠ [])
    (hname : IsName name.toList) (hv : Assigns v named' s)
    (h : SpellsAttributes named' attributes rest) :
    SpellsAttributes named (⟨name, v⟩ :: attributes) (b ++ name.toList ++ s ++ rest)

/-! ### Nodes -/

/-- A text that reading leaves as it is. -/
structure IsText (atTop : Bool) (text : List Char) : Prop where
  nonempty : text ≠ []
  chars : '<' ∉ text ∧ '{' ∉ text
  blank : ∀ c ∈ text, isBlank c = true → c = ' '
  single : ¬ [' ', ' '] <:+: text
  top : atTop = true → ∃ c ∈ text, isBlank c = false

/-- A node, or children of one element; `free` says that a run of characters may stand before the
children, because none ends there. -/
inductive Phrase where
  | node (node : Node)
  | children (atTop free : Bool) (nodes : List Node)

inductive Spells : Phrase → List Char → Prop where
  | selfClosing {name : String} {attributes : List Attribute} {a : List Char}
    (hname : IsName name.toList) (ha : SpellsAttributes true attributes a) :
    Spells (.node (.element name attributes [])) ('<' :: name.toList ++ a ++ ['/', '>'])
  | element {name : String} {attributes : List Attribute} {children : List Node}
    {a s b b' : List Char} (hname : IsName name.toList) (ha : SpellsAttributes true attributes a)
    (h : Spells (.children false true children) s) (hb : Blanks b) (hb' : Blanks b') :
    Spells (.node (.element name attributes children))
      ('<' :: name.toList ++ a ++ '>' :: s ++ '<' :: '/' :: b ++ name.toList ++ b' ++ ['>'])
  | fragment {children : List Node} {s b : List Char} (h : Spells (.children false true children) s)
    (hb : Blanks b) :
    Spells (.node (.fragment children)) ('<' :: '>' :: s ++ '<' :: '/' :: b ++ ['>'])
  | expression {v : Value} {b s b' : List Char} (hb : Blanks b) (hv : SpellsValue v s)
    (hb' : Blanks b') : Spells (.node (.expression v)) ('{' :: b ++ s ++ b' ++ ['}'])
  | done {atTop free : Bool} : Spells (.children atTop free []) []
  | child {atTop free : Bool} {node : Node} {nodes : List Node} {s rest : List Char}
    (h : Spells (.node node) s) (hrest : Spells (.children atTop true nodes) rest) :
    Spells (.children atTop free (node :: nodes)) (s ++ rest)
  | text {atTop : Bool} {text : String} {nodes : List Node} {rest : List Char}
    (h : IsText atTop text.toList) (hrest : Spells (.children atTop false nodes) rest) :
    Spells (.children atTop true (.text text :: nodes)) (text.toList ++ rest)
  /-- Blanks with a line feed stand for nothing, and outside of all elements any blanks do. -/
  | layout {atTop : Bool} {nodes : List Node} {b rest : List Char} (hb : Blanks b) (hne : b ≠ [])
    (hfeed : '\n' ∈ b ∨ atTop = true) (hrest : Spells (.children atTop false nodes) rest) :
    Spells (.children atTop true nodes) (b ++ rest)
  | comment {atTop free : Bool} {nodes : List Node} {b body b' rest : List Char} (hb : Blanks b)
    (hbody : ¬ ['*', '/'] <:+: body) (hb' : Blanks b')
    (hrest : Spells (.children atTop true nodes) rest) :
    Spells (.children atTop free nodes)
      ('{' :: b ++ '/' :: '*' :: body ++ '*' :: '/' :: b' ++ '}' :: rest)

end AgentSurface.Jsx
