import AgentSurface.Jsx.Reader

/-!
# Jsx — reading by descent

A descent reads as `parse` does, but as the grammar is written: a function for each kind of thing,
which calls those for the things inside it, and a loop wherever several things stand in a row.  It
moves a `Cursor` over the source and counts what is open.

Nothing in the form of such a reader says that it comes to an end.  A loop that goes round without
moving the cursor may go round for ever, a cursor may come behind the end of the source, and calls
may nest as deep as the source does.  So a descent watches itself and halts where one of these
things happens.  Of the reasons to halt (`Halt`) only `fault` lies with the source; none of the
others can occur.
-/

namespace AgentSurface.Jsx

/-- A place in a source, and how many elements, fragments and literal containers are open there. -/
structure Cursor (source : List Char) where
  pos : Nat
  pos_le : pos ≤ source.length
  depth : Nat

/-- Why a descent ends without a result. -/
inductive Halt where
  /-- The source is not in the restricted grammar. -/
  | fault (f : Fault)
  /-- A loop went round, and the cursor did not go forward. -/
  | stalled
  /-- The cursor would have come behind the end of the source. -/
  | overrun
  /-- A character that stood before the cursor was not there. -/
  | vanished
  /-- More things were opened, one inside the other, than there are levels. -/
  | overfull
deriving DecidableEq

/-- A part of a descent: it moves the cursor, and gives a result or halts. -/
abbrev Descent (source : List Char) (α : Type) := EStateM Halt (Cursor source) α

/-- A round of a loop is the last one, or there is another one. -/
inductive Round (σ α : Type) where
  | again (s : σ)
  | done (a : α)

namespace Descent

variable {source : List Char} {σ α : Type}

/-! ### The cursor -/

/-- The character behind the cursor, or so many characters behind that. -/
def peekAt (ahead : Nat) : Descent source (Option Char) := fun c => .ok source[c.pos + ahead]? c

def peek : Descent source (Option Char) := peekAt 0

/-- Go past some characters. -/
def forward (n : Nat) : Descent source Unit := fun c =>
  if h : c.pos + n ≤ source.length then .ok () { c with pos := c.pos + n, pos_le := h }
  else .error .overrun c

/-- The source is at fault, here. -/
def blame (refusal : Refusal) : Descent source α := fun c =>
  .error (.fault (refusal.fault source c.pos)) c

/-- Something else should stand here. -/
def expected (what : Expected) : Descent source α := do
  blame (.unexpected (← peek) 0 what)

/-- Go past the next character, if there is one. -/
def bump : Descent source (Option Char) := do
  match ← peek with
  | some c =>
    forward 1
    return some c
  | none => return none

/-- Go past this character, if it is the next one. -/
def eat (c : Char) : Descent source Bool := do
  if (← peek) = some c then
    forward 1
    return true
  else return false

/-- Go past this character, which must be the next one. -/
def expect (c : Char) (what : Expected) : Descent source Unit := do
  if ← eat c then return () else expected what

/-- Go past this character, which was seen to be the next one. -/
def take (c : Char) : Descent source Unit := do
  if ← eat c then return () else throw .vanished

/-- Whether these two characters come next. -/
def startsWith (first second : Char) : Descent source Bool := do
  return (← peek) = some first ∧ (← peekAt 1) = some second

/-- One more thing is open, if there is room for it. -/
def enter : Descent source Unit := fun c =>
  let inside := { c with depth := c.depth + 1 }
  if maxDepth < inside.depth then .error (.fault (.tooDeep maxDepth)) inside else .ok () inside

/-- One thing less is open. -/
def leave : Descent source Unit := fun c => .ok () { c with depth := c.depth - 1 }

/-- A thing that is open from this bracket on. -/
def bracketed (bracket : Char) (inside : Descent source α) : Descent source α := do
  take bracket
  enter
  let a ← inside
  leave
  return a

/-! ### Loops -/

/-- Go round until a round is the last one, as long as the cursor goes forward. -/
def loop (body : σ → Descent source (Round σ α)) (s : σ) : Descent source α := fun c =>
  match body s c with
  | .error halt c' => .error halt c'
  | .ok (.done a) c' => .ok a c'
  | .ok (.again s') c' => if c.pos < c'.pos then loop body s' c' else .error .stalled c'
termination_by c => source.length - c.pos
decreasing_by
  have := c'.pos_le
  omega

/-- Go past the characters of a class, and put them to those read before, the last one first. -/
def gather (p : Char → Bool) (read : List Char) : Descent source (List Char) :=
  loop (fun read => do
    match ← peek with
    | some c =>
      if p c then
        forward 1
        return .again (c :: read)
      else return .done read
    | none => return .done read) read

def skipBlanks : Descent source Unit := do
  let _ ← gather Text.isBlank []
  return ()

/-! ### Names, identifiers and numbers -/

def name : Descent source String := do
  match ← peek with
  | some c =>
    if isNameStart c then
      let read ← gather isNameRest []
      if read.head? = some '.' then expected .nameSegment
      else return String.ofList read.reverse
    else expected .name
  | none => expected .name

/-- One identifier of a path, and the dot behind it, if there is one. -/
def identRound (read : List Char) : Descent source (Round (List Char) String) := do
  match ← peek with
  | some c =>
    if isIdentStart c then
      let read ← gather (fun c => isIdentStart c || c.isDigit) read
      if ← eat '.' then return .again ('.' :: read)
      else return .done (String.ofList read.reverse)
    else expected .identifier
  | none => expected .identifier

def identPath : Descent source String := loop identRound []

def number : Descent source Json := do
  let read ← gather isNumeral []
  match Json.Number.ofText? read.reverse with
  | some n => return .number n
  | none => blame (.invalidLiteral 0 0 (.notNumber (String.ofList read.reverse)))

/-- A word that stands for a literal; the cursor goes back to the beginning of any other word. -/
def word : Descent source Json := do
  let start ← get
  let path ← identPath
  match wordLiteral? path with
  | some v => return v
  | none =>
    set start
    blame (.invalidLiteral 0 0 (.identifier path))

/-! ### Strings -/

/-- So many digits of a `\u` escape, behind some of them that are read already. -/
def hexDigits : Nat → Nat → Descent source Nat
  | 0, code => return code
  | n + 1, code => do
    match (← bump).bind Text.hexDigit? with
    | some d => hexDigits n (code * 16 + d)
    | none => blame (.invalidLiteral 0 0 .badEscape)

/-- What an escape stands for, behind its backslash. -/
def escape : Descent source Char := do
  match ← bump with
  | none => blame (.unexpected none 0 .escapeSequence)
  | some 'n' => return '\n'
  | some 't' => return '\t'
  | some 'r' => return '\r'
  | some 'b' => return '\x08'
  | some 'f' => return '\x0c'
  | some 'u' =>
    let code ← hexDigits 4 0
    return if Nat.isValidChar code then Char.ofNat code else Text.Utf8.replacement
  | some c => return c

/-- One more character of a string, or its other quote. -/
def stringRound (quote : Char) (text : String) : Descent source (Round String String) := do
  match ← bump with
  | none => blame (.unexpected none 0 .closingQuote)
  | some c =>
    if c = quote then return .done text
    else if c = '\\' then return .again (text.push (← escape))
    else return .again (text.push c)

/-- A string of a literal. -/
def string : Descent source String := do
  match ← bump with
  | some quote => loop (stringRound quote) ""
  | none => throw .vanished

/-- One more character of an attribute, or its other quote. -/
def attributeTextRound (quote : Char) (text : String) : Descent source (Round String String) := do
  match ← bump with
  | none => blame (.unexpected none 0 .closingQuote)
  | some c => return if c = quote then .done text else .again (text.push c)

/-! ### Literals -/

section Parts

-- A literal that is part of another one.
variable (part : Descent source Json)

/-- One more element of a list, the last one first, or the end of the list. -/
def arrayRound (items : List Json) : Descent source (Round (List Json) (List Json)) := do
  skipBlanks
  if ← eat ']' then return .done items
  else
    let items := (← part) :: items
    skipBlanks
    if ← eat ',' then return .again items
    else
      expect ']' .listSeparator
      return .done items

/-- A list behind its bracket. -/
def array : Descent source Json := do
  let items ← loop (arrayRound part) []
  return .array items.reverse

def key : Descent source String := do
  match ← peek with
  | some c =>
    if isQuote c then string
    else if isIdentStart c then identPath
    else expected .objectKey
  | none => expected .objectKey

/-- One more member of an object, or the end of the object. -/
def objectRound (members : Json.Fields) :
    Descent source (Round Json.Fields Json.Fields) := do
  skipBlanks
  if ← eat '}' then return .done members
  else
    let key ← key
    skipBlanks
    expect ':' .colon
    skipBlanks
    let members := members.insert key (← part)
    skipBlanks
    if ← eat ',' then return .again members
    else
      expect '}' .objectSeparator
      return .done members

/-- An object behind its brace. -/
def object : Descent source Json := do
  let members ← loop (objectRound part) []
  return .object members

end Parts

/-- A literal; `array` and `object` read those behind their bracket. -/
def literalOf (array object : Descent source Json) : Descent source Json := do
  match ← peek with
  | some c =>
    if isQuote c then return .string (← string)
    else if c = '[' then bracketed '[' array
    else if c = '{' then bracketed '{' object
    else if c = '-' || c.isDigit then number
    else if isIdentStart c then word
    else expected .literal
  | none => expected .literal

/-- A literal in which so many lists and objects may be open, one inside the other. -/
def literal : Nat → Descent source Json
  | 0 => literalOf (throw .overfull) (throw .overfull)
  | levels + 1 => literalOf (array (literal levels)) (object (literal levels))

/-! ### Nodes -/

section Nodes

-- The literals that may stand here.
variable (literal : Descent source Json)

/-- What stands in braces. -/
def value : Descent source Value := do
  match ← peek with
  | some c =>
    if isIdentStart c then
      let path ← identPath
      return match wordLiteral? path with
        | some v => .literal v
        | none => .ident path
    else return .literal (← literal)
  | none => return .literal (← literal)

/-- What an attribute is set to. -/
def attributeValue : Descent source Value := do
  match ← peek with
  | some c =>
    if isQuote c then
      forward 1
      return .literal (.string (← loop (attributeTextRound c) ""))
    else if c = '{' then
      forward 1
      skipBlanks
      let v ← value literal
      skipBlanks
      expect '}' .brace
      return v
    else expected .attributeValue
  | none => expected .attributeValue

def oneAttribute : Descent source Attribute := do
  let key ← name
  skipBlanks
  if ← eat '=' then
    skipBlanks
    return ⟨key, ← attributeValue literal⟩
  else return ⟨key, .literal (.bool true)⟩

/-- One more character of a comment, or its end. -/
def commentRound (_ : Unit) : Descent source (Round Unit Unit) := do
  if ← startsWith '*' '/' then
    forward 2
    return .done ()
  else
    match ← bump with
    | some _ => return .again ()
    | none => blame (.unexpected none 0 .commentEnd)

/-- A value in braces, or a comment or nothing, which are no node. -/
def expression : Descent source (Option Node) := do
  take '{'
  skipBlanks
  if ← startsWith '/' '*' then
    forward 2
    loop commentRound ()
    skipBlanks
    expect '}' .braceAfterComment
    return none
  else if ← eat '}' then return none
  else
    let v ← value literal
    skipBlanks
    expect '}' .brace
    return some (.expression v)

/-- One more attribute of a tag, the last one first, or the end of the tag and whether children
follow behind it. -/
def tagRound (attributes : List Attribute) :
    Descent source (Round (List Attribute) (List Attribute × Bool)) := do
  skipBlanks
  match ← peek with
  | some '/' =>
    forward 1
    expect '>' .tagEndAfterSlash
    return .done (attributes, false)
  | some '>' =>
    forward 1
    return .done (attributes, true)
  | some _ => return .again ((← oneAttribute literal) :: attributes)
  | none => expected .tagEndOrAttribute

/-- An element or a fragment behind its bracket; `inside` reads the children of one with this
name. -/
def element (inside : String → Descent source (List Node)) : Descent source Node := do
  if ← eat '>' then return .fragment (← inside "")
  else
    let opened ← name
    let (attributes, parted) ← loop (tagRound literal) []
    let children ← if parted then inside opened else pure []
    return .element opened attributes.reverse children

/-- The name in a closing tag; that of a fragment has none. -/
def closingName : Descent source String := do
  if (← peek) = some '>' then return "" else name

/-- A closing tag, which must have the name of what is open. -/
def closingTag (opened : String) : Descent source Unit := do
  forward 2
  skipBlanks
  let found ← closingName
  skipBlanks
  expect '>' .tagEnd
  if found = opened then return () else blame (.mismatchedClose opened found)

/-- One more child of what is open under this name, or of nothing, the last one first; or the end of
the children. -/
def childRound (element : Descent source Node) (opened : Option String) (nodes : List Node) :
    Descent source (Round (List Node) (List Node)) := do
  match ← peek with
  | none =>
    match opened with
    | some _ => blame (.unexpected none 0 .closingTag)
    | none => return .done nodes
  | some '<' =>
    if (← peekAt 1) = some '/' then
      match opened with
      | some name =>
        closingTag name
        return .done nodes
      | none => expected .element
    else return .again ((← bracketed '<' element) :: nodes)
  | some '{' =>
    match ← expression literal with
    | some node => return .again (node :: nodes)
    | none => return .again nodes
  | some _ =>
    let raw ← gather (fun c => c != '<' && c != '{') []
    match normalize raw.reverse opened.isNone with
    | some text => return .again (.text text :: nodes)
    | none => return .again nodes

def childrenOf (element : Descent source Node) (opened : Option String) :
    Descent source (List Node) := do
  let nodes ← loop (childRound literal element opened) []
  return nodes.reverse

end Nodes

/-- Children in which so many things may be open, one inside the other. -/
def children : Nat → Option String → Descent source (List Node)
  | 0, opened => childrenOf (literal 0) (throw .overfull) opened
  | levels + 1, opened =>
    childrenOf (literal (levels + 1))
      (element (literal levels) fun name => children levels (some name)) opened

/-- The nodes of a source. -/
def nodes : Descent source (List Node) := do
  let nodes ← children maxDepth none
  if nodes.isEmpty then blame (.unexpected none 0 .jsxElement) else return nodes

end Descent

/-- Read a source by descent, from its beginning; the cursor is where the descent ends. -/
def descend (source : List Char) : EStateM.Result Halt (Cursor source) (List Node) :=
  Descent.nodes ⟨0, Nat.zero_le _, 0⟩

end AgentSurface.Jsx
