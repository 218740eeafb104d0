import AgentSurface.Jsx.Tree
import AgentSurface.Jsx.Fault
import AgentSurface.Jsx.Prose
import AgentSurface.Json.Reader

/-!
# Jsx — reading

A machine reads a source character by character.  A `Place` is where it can be between two pieces
of the source; a `State` is a place, or the inside of a piece that ends only when a character comes
that does not belong to it: a text, a name, an identifier or a number.  `State.settle` ends such a
piece, `Place.advance` takes the first character behind a place, and `State.step` puts the two
together, so that every character of the source is taken exactly once.

`parse` runs the machine over a source.  It gives the nodes of the source, or why and where the
source leaves the restricted grammar.
-/

namespace AgentSurface.Jsx

/-- A tag whose attributes are being read, latest first. -/
structure Tag where
  name : String
  attributes : List Attribute

/-- An open element, or an open fragment if it has no tag; `before` holds its elder siblings, latest
first. -/
structure Open where
  tag : Option Tag
  before : List Node

/-- A place among children: the siblings before it, latest first, and what is open around it,
innermost first. -/
structure Site where
  nodes : List Node
  stack : List Open

/-- What a value in braces is for. -/
inductive Slot where
  | attribute (name : String) (tag : Tag) (site : Site)
  | child (site : Site)

/-- The literal containers around a place, innermost first. -/
abbrev Frames := List Json.Frame

/-- Where inside a string the machine is. -/
inductive StringPart where
  | plain
  | backslash
  /-- In a `\u` escape of which `taken` digits are read. -/
  | hex (taken code : Nat)
deriving DecidableEq

inductive StringRole where
  | value (frames : Frames)
  | key (before : Json.Fields) (frames : Frames)

inductive Place where
  /-- Before a child. -/
  | content (site : Site)
  /-- Behind `<`. -/
  | angle (site : Site)
  /-- Behind `</`. -/
  | closing (site : Site)
  /-- Behind the name of a closing tag. -/
  | closingEnd (name : String) (site : Site)
  /-- Before an attribute or the end of a tag. -/
  | tag (tag : Tag) (site : Site)
  /-- Behind the slash of a tag without children. -/
  | slashEnd (tag : Tag) (site : Site)
  /-- Behind the name of an attribute. -/
  | attribute (name : String) (tag : Tag) (site : Site)
  /-- Behind the equals sign of an attribute. -/
  | attributeValue (name : String) (tag : Tag) (site : Site)
  /-- Inside the quotes of an attribute. -/
  | attributeText (quote : Char) (text : String) (name : String) (tag : Tag) (site : Site)
  /-- Behind the brace of an attribute. -/
  | value (name : String) (tag : Tag) (site : Site)
  /-- Behind the brace of a child. -/
  | brace (site : Site)
  /-- Behind the brace of a child and a slash. -/
  | slash (site : Site)
  /-- Inside a comment; `star` says that the last character was one. -/
  | comment (star : Bool) (site : Site)
  | commentEnd (site : Site)
  /-- Behind a value, before its closing brace. -/
  | valueEnd (value : Value) (slot : Slot)
  /-- Behind the bracket or a comma of a list; the elements before it, latest first. -/
  | listNext (before : List Json) (frames : Frames) (slot : Slot)
  /-- Behind an element of a list. -/
  | listMore (before : List Json) (frames : Frames) (slot : Slot)
  /-- Behind the brace or a comma of an object. -/
  | objectNext (before : Json.Fields) (frames : Frames) (slot : Slot)
  | colon (before : Json.Fields) (key : String) (frames : Frames) (slot : Slot)
  /-- Behind the colon of a member. -/
  | memberValue (before : Json.Fields) (key : String) (frames : Frames) (slot : Slot)
  /-- Behind a member. -/
  | objectMore (before : Json.Fields) (frames : Frames) (slot : Slot)
  /-- Inside a string of a literal. -/
  | string (quote : Char) (text : String) (part : StringPart) (role : StringRole) (slot : Slot)

inductive NameRole where
  | closing (site : Site)
  | tag (site : Site)
  | attribute (tag : Tag) (site : Site)

inductive IdentRole where
  /-- The whole value in braces. -/
  | value (slot : Slot)
  /-- A part of a literal. -/
  | literal (frames : Frames) (slot : Slot)
  | key (before : Json.Fields) (frames : Frames) (slot : Slot)

/-- The machine; the characters of an unfinished piece are kept latest first. -/
inductive State where
  | at (place : Place)
  | text (read : List Char) (site : Site)
  | name (read : List Char) (role : NameRole)
  | ident (read : List Char) (role : IdentRole)
  | number (read : List Char) (frames : Frames) (slot : Slot)

/-- Why a character is refused, or the end of the source if `found` is nothing.  Places are told
from the refused character: so many characters `back` or `ahead`. -/
inductive Refusal where
  | unexpected (found : Option Char) (back : Nat) (expected : Expected)
  | mismatchedClose (opened found : String)
  | invalidLiteral (back ahead : Nat) (reason : LiteralFault)
  | tooDeep
deriving DecidableEq

/-! ### Characters -/

def isNameStart (c : Char) : Bool := c.isAlpha || c == '_'

def isNameRest (c : Char) : Bool := c.isAlphanum || c == '_' || c == '-' || c == ':' || c == '.'

def isIdentStart (c : Char) : Bool := c.isAlpha || c == '_' || c == '$'

def isNumeral (c : Char) : Bool :=
  c.isDigit || c == '-' || c == '+' || c == '.' || c == 'e' || c == 'E'

def isQuote (c : Char) : Bool := c == '"' || c == '\''

/-- The literal that a word stands for. -/
def wordLiteral? (word : String) : Option Json :=
  if word = "true" then some (.bool true)
  else if word = "false" then some (.bool false)
  else if word = "null" then some .null
  else none

/-! ### Putting things into place -/

def Open.name (o : Open) : String := (o.tag.map Tag.name).getD ""

def Open.node (o : Open) (children : List Node) : Node :=
  match o.tag with
  | some tag => .element tag.name tag.attributes.reverse children
  | none => .fragment children

/-- Add a child. -/
def Site.add (site : Site) (node : Node) : Site := { site with nodes := node :: site.nodes }

/-- Add the text between two children. -/
def Site.addText (site : Site) (raw : List Char) : Site :=
  match normalize raw site.stack.isEmpty with
  | some text => site.add (.text text)
  | none => site

/-- The place before the first child of an element or fragment. -/
def Site.enter (site : Site) (tag : Option Tag) : Site :=
  { nodes := [], stack := ⟨tag, site.nodes⟩ :: site.stack }

/-- How many elements and fragments are open around a value. -/
def Slot.depth : Slot → Nat
  | .attribute _ _ site => site.stack.length + 1
  | .child site => site.stack.length

def Tag.add (tag : Tag) (name : String) (value : Value) : Tag :=
  { tag with attributes := ⟨name, value⟩ :: tag.attributes }

/-- The place behind a value in braces. -/
def Slot.supply (slot : Slot) (v : Value) : Place :=
  match slot with
  | .attribute name tag site => .tag (tag.add name v) site
  | .child site => .content (site.add (.expression v))

/-- Put a literal into its place. -/
def supply (v : Json) (frames : Frames) (slot : Slot) : Place :=
  match frames with
  | [] => .valueEnd (.literal v) slot
  | .item before :: frames => .listMore (v :: before) frames slot
  | .member before key :: frames => .objectMore (before.insert key v) frames slot

/-- The place behind a string of a literal. -/
def StringRole.supply (role : StringRole) (text : String) (slot : Slot) : Place :=
  match role with
  | .value frames => Jsx.supply (.string text) frames slot
  | .key before frames => .colon before text frames slot

/-! ### Steps from a place -/

/-- The step goes on to a place. -/
def goOn (place : Place) : Except Refusal State := .ok (.at place)

def refuse (c : Char) (expected : Expected) : Except Refusal State :=
  .error (.unexpected (some c) 0 expected)

/-- A name must begin. -/
def beginName (role : NameRole) (c : Char) : Except Refusal State :=
  if isNameStart c then .ok (.name [c] role) else refuse c .name

/-- A closing tag with this name ends. -/
def close (site : Site) (name : String) : Except Refusal State :=
  match site.stack with
  | [] => goOn (.content site)
  | o :: outer =>
    if name = o.name then
      goOn (.content { nodes := o.node site.nodes.reverse :: o.before, stack := outer })
    else .error (.mismatchedClose o.name name)

/-- A list or an object opens, if there is room for one more. -/
def openLiteral (frames : Frames) (slot : Slot) (place : Place) : Except Refusal State :=
  if slot.depth + frames.length < maxDepth then goOn place else .error .tooDeep

/-- The first character of a literal; `role` says what to do with an identifier. -/
def beginLiteral (frames : Frames) (slot : Slot) (role : IdentRole) (c : Char) :
    Except Refusal State :=
  if isQuote c then goOn (.string c "" .plain (.value frames) slot)
  else if c = '[' then openLiteral frames slot (.listNext [] frames slot)
  else if c = '{' then openLiteral frames slot (.objectNext [] frames slot)
  else if c = '-' || c.isDigit then .ok (.number [c] frames slot)
  else if isIdentStart c then .ok (.ident [c] role)
  else refuse c .literal

/-- The first character of the value in braces. -/
def beginValue (slot : Slot) (c : Char) : Except Refusal State :=
  beginLiteral [] slot (.value slot) c

/-- The first character of a part of a literal. -/
def beginPart (frames : Frames) (slot : Slot) (c : Char) : Except Refusal State :=
  beginLiteral frames slot (.literal frames slot) c

/-- A character between the attributes of a tag. -/
def tagStep (tag : Tag) (site : Site) (c : Char) : Except Refusal State :=
  if Text.isBlank c then goOn (.tag tag site)
  else if c = '/' then goOn (.slashEnd tag site)
  else if c = '>' then goOn (.content (site.enter (some tag)))
  else beginName (.attribute tag site) c

/-- A character behind `<`. -/
def angleStep (site : Site) (c : Char) : Except Refusal State :=
  if c = '/' then
    if site.stack.isEmpty then .error (.unexpected (some '<') 1 .element) else goOn (.closing site)
  else if maxDepth ≤ site.stack.length then .error .tooDeep
  else if c = '>' then goOn (.content (site.enter none))
  else beginName (.tag site) c

/-- A character inside a string of a literal. -/
def stringStep (quote : Char) (text : String) (part : StringPart) (role : StringRole) (slot : Slot)
    (c : Char) : Except Refusal State :=
  match part with
  | .plain =>
    if c = quote then goOn (role.supply text slot)
    else if c = '\\' then goOn (.string quote text .backslash role slot)
    else goOn (.string quote (text.push c) .plain role slot)
  | .backslash =>
    if c = 'u' then goOn (.string quote text (.hex 0 0) role slot)
    else
      let meant :=
        if c = 'n' then '\n'
        else if c = 't' then '\t'
        else if c = 'r' then '\r'
        else if c = 'b' then '\x08'
        else if c = 'f' then '\x0c'
        else c
      goOn (.string quote (text.push meant) .plain role slot)
  | .hex taken code =>
    match Text.hexDigit? c with
    | none => .error (.invalidLiteral 0 1 .badEscape)
    | some d =>
      let code := code * 16 + d
      if taken < 3 then goOn (.string quote text (.hex (taken + 1) code) role slot)
      else
        let meant := if Nat.isValidChar code then Char.ofNat code else Text.Utf8.replacement
        goOn (.string quote (text.push meant) .plain role slot)

/-- Take the first character behind a place. -/
def Place.advance (place : Place) (c : Char) : Except Refusal State :=
  match place with
  | .content site =>
    if c = '<' then goOn (.angle site)
    else if c = '{' then goOn (.brace site)
    else .ok (.text [c] site)
  | .angle site => angleStep site c
  | .closing site =>
    if Text.isBlank c then goOn place
    else if c = '>' then close site ""
    else beginName (.closing site) c
  | .closingEnd name site =>
    if Text.isBlank c then goOn place
    else if c = '>' then close site name
    else refuse c .tagEnd
  | .tag t site => tagStep t site c
  | .slashEnd t site =>
    if c = '>' then
      goOn (.content (site.add (.element t.name t.attributes.reverse [])))
    else refuse c .tagEndAfterSlash
  | .attribute name t site =>
    if Text.isBlank c then goOn place
    else if c = '=' then goOn (.attributeValue name t site)
    else tagStep (t.add name (.literal (.bool true))) site c
  | .attributeValue name t site =>
    if Text.isBlank c then goOn place
    else if isQuote c then goOn (.attributeText c "" name t site)
    else if c = '{' then goOn (.value name t site)
    else refuse c .attributeValue
  | .attributeText quote text name t site =>
    if c = quote then goOn (.tag (t.add name (.literal (.string text))) site)
    else goOn (.attributeText quote (text.push c) name t site)
  | .value name t site =>
    if Text.isBlank c then goOn place else beginValue (.attribute name t site) c
  | .brace site =>
    if Text.isBlank c then goOn place
    else if c = '/' then goOn (.slash site)
    else if c = '}' then goOn (.content site)
    else beginValue (.child site) c
  | .slash site =>
    if c = '*' then goOn (.comment false site)
    else .error (.unexpected (some '/') 1 .literal)
  | .comment star site =>
    if star && c == '/' then goOn (.commentEnd site) else goOn (.comment (c == '*') site)
  | .commentEnd site =>
    if Text.isBlank c then goOn place
    else if c = '}' then goOn (.content site)
    else refuse c .braceAfterComment
  | .valueEnd v slot =>
    if Text.isBlank c then goOn place
    else if c = '}' then goOn (slot.supply v)
    else refuse c .brace
  | .listNext before frames slot =>
    if Text.isBlank c then goOn place
    else if c = ']' then goOn (supply (.array before.reverse) frames slot)
    else beginPart (.item before :: frames) slot c
  | .listMore before frames slot =>
    if Text.isBlank c then goOn place
    else if c = ',' then goOn (.listNext before frames slot)
    else if c = ']' then goOn (supply (.array before.reverse) frames slot)
    else refuse c .listSeparator
  | .objectNext before frames slot =>
    if Text.isBlank c then goOn place
    else if c = '}' then goOn (supply (.object before) frames slot)
    else if isQuote c then goOn (.string c "" .plain (.key before frames) slot)
    else if isIdentStart c then .ok (.ident [c] (.key before frames slot))
    else refuse c .objectKey
  | .colon before key frames slot =>
    if Text.isBlank c then goOn place
    else if c = ':' then goOn (.memberValue before key frames slot)
    else refuse c .colon
  | .memberValue before key frames slot =>
    if Text.isBlank c then goOn place else beginPart (.member before key :: frames) slot c
  | .objectMore before frames slot =>
    if Text.isBlank c then goOn place
    else if c = ',' then goOn (.objectNext before frames slot)
    else if c = '}' then goOn (supply (.object before) frames slot)
    else refuse c .objectSeparator
  | .string quote text part role slot => stringStep quote text part role slot c

/-! ### Pieces that end behind their last character -/

/-- The place behind a name. -/
def NameRole.supply (role : NameRole) (name : String) : Place :=
  match role with
  | .closing site => .closingEnd name site
  | .tag site => .tag ⟨name, []⟩ site
  | .attribute t site => .attribute name t site

/-- The place behind an identifier. -/
def IdentRole.supply (role : IdentRole) (word : String) : Except Refusal Place :=
  match role with
  | .value slot =>
    match wordLiteral? word with
    | some v => .ok (.valueEnd (.literal v) slot)
    | none => .ok (.valueEnd (.ident word) slot)
  | .literal frames slot =>
    match wordLiteral? word with
    | some v => .ok (Jsx.supply v frames slot)
    | none => .error (.invalidLiteral word.length 0 (.identifier word))
  | .key before frames slot => .ok (.colon before word frames slot)

/-- End the piece that is being read, before the character `next` or at the end of the source. -/
def State.settle (next : Option Char) : State → Except Refusal Place
  | .at place => .ok place
  | .text read site => .ok (.content (site.addText read.reverse))
  | .name read role =>
    if read.head? = some '.' then .error (.unexpected next 0 .nameSegment)
    else .ok (role.supply (String.ofList read.reverse))
  | .ident read role =>
    if read.head? = some '.' then .error (.unexpected next 0 .identifier)
    else role.supply (String.ofList read.reverse)
  | .number read frames slot =>
    match Json.Number.ofText? read.reverse with
    | some n => .ok (supply (.number n) frames slot)
    | none => .error (.invalidLiteral 0 0 (.notNumber (String.ofList read.reverse)))

/-- The piece that is being read with one character more, if the character belongs to it. -/
def State.extend? (c : Char) : State → Option State
  | .at _ => none
  | .text read site => if c = '<' ∨ c = '{' then none else some (.text (c :: read) site)
  | .name read role => if isNameRest c then some (.name (c :: read) role) else none
  | .ident read role =>
    let belongs := isIdentStart c || (read.head? != some '.' && (c.isDigit || c == '.'))
    if belongs then some (.ident (c :: read) role) else none
  | .number read frames slot =>
    if isNumeral c then some (.number (c :: read) frames slot) else none

/-- Take the next character. -/
def State.step (s : State) (c : Char) : Except Refusal State :=
  match s.extend? c with
  | some longer => .ok longer
  | none =>
    match s.settle (some c) with
    | .ok place => place.advance c
    | .error refusal => .error refusal

/-! ### The end of the source -/

/-- What is missing when the source ends inside a string. -/
def StringPart.atEnd : StringPart → Refusal
  | .plain => .unexpected none 0 .closingQuote
  | .backslash => .unexpected none 0 .escapeSequence
  | .hex _ _ => .invalidLiteral 0 0 .badEscape

/-- The source ends at a place: the nodes of the source, or what is missing. -/
def Place.finish (place : Place) : Except Refusal (List Node) :=
  let missing (expected : Expected) : Except Refusal (List Node) :=
    .error (.unexpected none 0 expected)
  match place with
  | .content site =>
    if !site.stack.isEmpty then missing .closingTag
    else if site.nodes.isEmpty then missing .jsxElement
    else .ok site.nodes.reverse
  | .angle site => if maxDepth ≤ site.stack.length then .error .tooDeep else missing .name
  | .closing _ => missing .name
  | .closingEnd _ _ => missing .tagEnd
  | .tag _ _ => missing .tagEndOrAttribute
  | .slashEnd _ _ => missing .tagEndAfterSlash
  | .attribute _ _ _ => missing .tagEndOrAttribute
  | .attributeValue _ _ _ => missing .attributeValue
  | .attributeText _ _ _ _ _ => missing .closingQuote
  | .value _ _ _ => missing .literal
  | .brace _ => missing .literal
  | .slash _ => .error (.unexpected (some '/') 1 .literal)
  | .comment _ _ => missing .commentEnd
  | .commentEnd _ => missing .braceAfterComment
  | .valueEnd _ _ => missing .brace
  | .listNext _ _ _ => missing .literal
  | .listMore _ _ _ => missing .listSeparator
  | .objectNext _ _ _ => missing .objectKey
  | .colon _ _ _ _ => missing .colon
  | .memberValue _ _ _ _ => missing .literal
  | .objectMore _ _ _ => missing .objectSeparator
  | .string _ _ part _ _ => .error part.atEnd

/-- The source ends. -/
def State.finish (s : State) : Except Refusal (List Node) :=
  match s.settle none with
  | .ok place => place.finish
  | .error refusal => .error refusal

/-! ### Reading a source -/

/-- The fault of a refusal behind the first `taken` characters of the source. -/
def Refusal.fault (source : List Char) (taken : Nat) : Refusal → Fault
  | .unexpected none _ expected => .endOfInput expected
  | .unexpected (some c) back expected =>
    let (line, column) := locate 1 1 (source.take (taken - back))
    .unexpected c line column expected
  | .mismatchedClose opened found => .mismatchedClose opened found
  | .invalidLiteral back ahead reason =>
    let (line, column) := locate 1 1 (source.take (taken - back + ahead))
    .invalidLiteral line column reason
  | .tooDeep => .tooDeep maxDepth

/-- The machine before its source. -/
def State.initial : State := .at (.content ⟨[], []⟩)

/-- Read a source. -/
def parse (source : List Char) : Except Fault (List Node) :=
  match Text.feed State.step State.initial source with
  | .error stop => .error (stop.reason.fault source (source.length - stop.unread.length))
  | .ok s =>
    match s.finish with
    | .ok nodes => .ok nodes
    | .error refusal => .error (refusal.fault source source.length)

end AgentSurface.Jsx
