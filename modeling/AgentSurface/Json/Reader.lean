import AgentSurface.Json.Basic
import AgentSurface.Text.Feed
import AgentSurface.Text.Blank
import AgentSurface.Text.Utf8

/-!
# Json — reading

`State` is a machine that reads one JSON value, a character at a time.  What it has read is kept in
a context: the list of containers that are still open, innermost first, each with what stands
before the place where the machine is.  Every state is one that some text leads to, and
`State.step` says what the next character does to it.

`Json.read` runs the machine over a text.  It refuses what is not exactly one JSON value with blanks
around it, and says why and where; a container inside 127 others is refused as well.  What it gives
has its members as they are written; `Json.parse` settles those that are written twice.
-/

namespace AgentSurface.Json

/-- A container that is open, and what stands in it before the value that is read in it. -/
inductive Frame where
  /-- The elements before, latest first. -/
  | item (before : List Json)
  /-- The members before, latest first, and the key of the value. -/
  | member (before : Fields) (key : String)

/-- The containers around a place, innermost first. -/
abbrev Context := List Frame

/-- How many containers may be open at once. -/
def maxDepth : Nat := 127

/-- What a string that is read belongs to. -/
inductive StringRole where
  | value (context : Context)
  | key (before : Fields) (context : Context)

/-- Where inside a string the machine is. -/
inductive StringPart where
  | plain
  | backslash
  /-- In a `\u` escape of which `taken` bytes are read; `code` is their value if all are digits, and
  `lead` the surrogate before. -/
  | hex (taken : Nat) (code : Option Nat) (lead : Option Nat)
  /-- Behind the first half of a surrogate pair. -/
  | lead (code : Nat)
  | leadBackslash (code : Nat)
deriving DecidableEq

/-- The machine. -/
inductive State where
  /-- A value must come. -/
  | value (context : Context)
  /-- Behind the opening bracket of a list. -/
  | listStart (context : Context)
  /-- Behind a comma of a list. -/
  | listNext (before : List Json) (context : Context)
  /-- Behind an element; `before` ends with it, latest first. -/
  | listMore (before : List Json) (context : Context)
  /-- Behind the opening brace of an object. -/
  | objectStart (context : Context)
  /-- Behind a comma of an object. -/
  | objectNext (before : Fields) (context : Context)
  | colon (before : Fields) (key : String) (context : Context)
  /-- Behind the value of a member; `before` ends with it, latest first. -/
  | objectMore (before : Fields) (context : Context)
  /-- Inside `true`, `false` or `null`, before `rest`. -/
  | literal (rest : List Char) (value : Json) (context : Context)
  | number (numeral : Numeral) (context : Context)
  | string (text : String) (part : StringPart) (role : StringRole)
  /-- The value is read. -/
  | done (value : Json)

/-- A cause, noticed so many bytes behind the beginning of the current character. -/
structure Refusal where
  cause : Cause
  bytes : Nat
deriving DecidableEq

/-- The blanks of JSON. -/
def isSpace (c : Char) : Bool := c == ' ' || c == '\n' || c == '\t' || c == '\r'

/-- Put a value into its place. -/
def Context.supply (value : Json) : Context → State
  | [] => .done value
  | .item before :: context => .listMore (value :: before) context
  | .member before key :: context => .objectMore ((key, value) :: before) context

namespace State

/-- The machine before its text. -/
def initial : State := .value []

/-! ### Behind a value -/

/-- A character behind an element of a list. -/
def afterItem (before : List Json) (context : Context) (c : Char) : Except Refusal State :=
  if isSpace c then .ok (.listMore before context)
  else if c = ',' then .ok (.listNext before context)
  else if c = ']' then .ok (context.supply (.array before.reverse))
  else .error ⟨.expectedListSeparator, 1⟩

/-- A character behind a member of an object. -/
def afterMember (before : Fields) (context : Context) (c : Char) : Except Refusal State :=
  if isSpace c then .ok (.objectMore before context)
  else if c = ',' then .ok (.objectNext before context)
  else if c = '}' then .ok (context.supply (.object before.reverse))
  else .error ⟨.expectedObjectSeparator, 1⟩

/-- A character behind the whole value. -/
def afterAll (value : Json) (c : Char) : Except Refusal State :=
  if isSpace c then .ok (.done value) else .error ⟨.trailingCharacters, 1⟩

/-- A character behind a numeral, which gives its value first. -/
def afterNumber (numeral : Numeral) (context : Context) (c : Char) : Except Refusal State :=
  match numeral.value? with
  | none => .error ⟨.numberOutOfRange, 0⟩
  | some n =>
    match context with
    | [] => afterAll (.number n) c
    | .item before :: context => afterItem (.number n :: before) context c
    | .member before key :: context => afterMember ((key, .number n) :: before) context c

/-! ### Before a value -/

/-- Open a container, if there is room for one more. -/
def openContainer (context : Context) (next : State) : Except Refusal State :=
  if context.length < maxDepth then .ok next else .error ⟨.tooDeep, 1⟩

/-- The first character of a value, which is not a space. -/
def startValue (context : Context) (c : Char) : Except Refusal State :=
  if c = '"' then .ok (.string "" .plain (.value context))
  else if c = '[' then openContainer context (.listStart context)
  else if c = '{' then openContainer context (.objectStart context)
  else if c = 't' then .ok (.literal ['r', 'u', 'e'] (.bool true) context)
  else if c = 'f' then .ok (.literal ['a', 'l', 's', 'e'] (.bool false) context)
  else if c = 'n' then .ok (.literal ['u', 'l', 'l'] .null context)
  else
    match Numeral.start? c with
    | some numeral => .ok (.number numeral context)
    | none => .error ⟨.expectedValue, 1⟩

/-- A character inside a word; the word ends with it when nothing is left. -/
def literalStep (rest : List Char) (value : Json) (context : Context) (c : Char) :
    Except Refusal State :=
  match rest with
  | [] => .error ⟨.expectedLiteral, 1⟩
  | [last] => if c = last then .ok (context.supply value) else .error ⟨.expectedLiteral, 1⟩
  | next :: rest =>
    if c = next then .ok (.literal rest value context) else .error ⟨.expectedLiteral, 1⟩

def numberStep (numeral : Numeral) (context : Context) (c : Char) : Except Refusal State :=
  match numeral.step c with
  | .more numeral => .ok (.number numeral context)
  | .ended => afterNumber numeral context c
  | .refused cause => .error ⟨cause, 1⟩

/-! ### Strings -/

/-- The end of a string. -/
def closeString (text : String) : StringRole → State
  | .value context => context.supply (.string text)
  | .key before context => .colon before text context

/-- The character that a short escape stands for. -/
def shortEscape? (c : Char) : Option Char :=
  if c = '"' ∨ c = '\\' ∨ c = '/' then some c
  else if c = 'b' then some '\x08'
  else if c = 'f' then some '\x0c'
  else if c = 'n' then some '\n'
  else if c = 'r' then some '\r'
  else if c = 't' then some '\t'
  else none

def isLeadSurrogate (code : Nat) : Bool := 0xD800 ≤ code && code ≤ 0xDBFF

def isTrailSurrogate (code : Nat) : Bool := 0xDC00 ≤ code && code ≤ 0xDFFF

/-- The character that a pair of surrogates stands for. -/
def surrogatePair (lead trail : Nat) : Char :=
  Char.ofNat (0x10000 + (lead - 0xD800) * 0x400 + (trail - 0xDC00))

/-- A `\u` escape whose four bytes are read. -/
def closeHex (text : String) (role : StringRole) (code : Option Nat) (lead : Option Nat)
    (bytes : Nat) : Except Refusal State :=
  match code, lead with
  | none, _ => .error ⟨.invalidEscape, bytes⟩
  | some code, none =>
    if isTrailSurrogate code then .error ⟨.loneSurrogate, bytes⟩
    else if isLeadSurrogate code then .ok (.string text (.lead code) role)
    else .ok (.string (text.push (Char.ofNat code)) .plain role)
  | some code, some lead =>
    if isTrailSurrogate code then
      .ok (.string (text.push (surrogatePair lead code)) .plain role)
    else .error ⟨.loneSurrogate, bytes⟩

/-- A character inside a `\u` escape.  The escape ends behind its fourth byte, which may lie inside
a character that is no digit. -/
def hexStep (text : String) (role : StringRole) (taken : Nat) (code lead : Option Nat) (c : Char) :
    Except Refusal State :=
  let code := code.bind fun n => (Text.hexDigit? c).map (n * 16 + ·)
  if taken + c.utf8Size < 4 then .ok (.string text (.hex (taken + c.utf8Size) code lead) role)
  else closeHex text role code lead (4 - taken)

def stringStep (text : String) (part : StringPart) (role : StringRole) (c : Char) :
    Except Refusal State :=
  match part with
  | .plain =>
    if c = '"' then .ok (closeString text role)
    else if c = '\\' then .ok (.string text .backslash role)
    else if c.toNat < 0x20 then .error ⟨.controlCharacter, 1⟩
    else .ok (.string (text.push c) .plain role)
  | .backslash =>
    if c = 'u' then .ok (.string text (.hex 0 (some 0) none) role)
    else
      match shortEscape? c with
      | some meant => .ok (.string (text.push meant) .plain role)
      | none => .error ⟨.invalidEscape, 1⟩
  | .hex taken code lead => hexStep text role taken code lead c
  | .lead code =>
    if c = '\\' then .ok (.string text (.leadBackslash code) role)
    else .error ⟨.unfinishedSurrogate, 1⟩
  | .leadBackslash code =>
    if c = 'u' then .ok (.string text (.hex 0 (some 0) (some code)) role)
    else .error ⟨.unfinishedSurrogate, 1⟩

/-! ### The step -/

/-- Take the next character. -/
def step (s : State) (c : Char) : Except Refusal State :=
  match s with
  | .value context => if isSpace c then .ok s else startValue context c
  | .listStart context =>
    if isSpace c then .ok s
    else if c = ']' then .ok (context.supply (.array []))
    else startValue (.item [] :: context) c
  | .listNext before context =>
    if isSpace c then .ok s
    else if c = ']' then .error ⟨.trailingComma, 1⟩
    else startValue (.item before :: context) c
  | .listMore before context => afterItem before context c
  | .objectStart context =>
    if isSpace c then .ok s
    else if c = '}' then .ok (context.supply (.object []))
    else if c = '"' then .ok (.string "" .plain (.key [] context))
    else .error ⟨.keyNotString, 1⟩
  | .objectNext before context =>
    if isSpace c then .ok s
    else if c = '"' then .ok (.string "" .plain (.key before context))
    else if c = '}' then .error ⟨.trailingComma, 1⟩
    else .error ⟨.keyNotString, 1⟩
  | .colon before key context =>
    if isSpace c then .ok s
    else if c = ':' then .ok (.value (.member before key :: context))
    else .error ⟨.expectedColon, 1⟩
  | .objectMore before context => afterMember before context c
  | .literal rest v context => literalStep rest v context c
  | .number numeral context => numberStep numeral context c
  | .string text part role => stringStep text part role c
  | .done v => afterAll v c

/-- The end of the text: the value that was read, or why it is not complete. -/
def finish : State → Except Cause Json
  | .value _ => .error .endInValue
  | .listStart _ => .error .endInList
  | .listNext _ _ => .error .endInValue
  | .listMore _ _ => .error .endInList
  | .objectStart _ => .error .endInObject
  | .objectNext _ _ => .error .endInValue
  | .colon _ _ _ => .error .endInObject
  | .objectMore _ _ => .error .endInObject
  | .literal _ _ _ => .error .endInValue
  | .number numeral context =>
    if numeral.complete then
      match numeral.value?, context with
      | none, _ => .error .numberOutOfRange
      | some n, [] => .ok (.number n)
      | some _, .item _ :: _ => .error .endInList
      | some _, .member _ _ :: _ => .error .endInObject
    else .error .endInValue
  | .string _ _ _ => .error .endInString
  | .done v => .ok v

end State

/-! ### Reading a text -/

/-- The fault of a refusal at the first character of `unread`, at the end of the text if nothing is
unread. -/
def SyntaxFault.at (source unread : List Char) (refusal : Refusal) : SyntaxFault :=
  let (line, column) := locate (Text.size source - Text.size unread + refusal.bytes) 1 0 source
  ⟨refusal.cause, line, column⟩

/-- Read a text that is exactly one JSON value, with its members as they are written. -/
def read (source : List Char) : Except SyntaxFault Json :=
  match Text.feed State.step State.initial source with
  | .error stop => .error (.at source stop.unread stop.reason)
  | .ok s =>
    match s.finish with
    | .ok v => .ok v
    | .error cause => .error (.at source [] ⟨cause, 0⟩)

/-- The value of a text that is exactly one.  Of members with one key the last gives the value, in
the place of the first. -/
def parse (source : List Char) : Except SyntaxFault Json := (read source).map settled

/-- The value of a text, if it is one. -/
def parse? (source : List Char) : Option Json := (parse source).toOption

end AgentSurface.Json
