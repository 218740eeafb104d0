/-!
# Json — what can be wrong with a text

`Cause` lists the ways in which a text fails to be one JSON value.  A `SyntaxFault` adds the place:
lines are counted from one, and columns in bytes.
-/

namespace AgentSurface.Json

/-- Why a text is not one JSON value. -/
inductive Cause where
  | endInValue
  | endInString
  | endInList
  | endInObject
  | expectedValue
  | expectedLiteral
  | invalidNumber
  | numberOutOfRange
  | controlCharacter
  | invalidEscape
  | loneSurrogate
  | unfinishedSurrogate
  | expectedListSeparator
  | expectedObjectSeparator
  | expectedColon
  | keyNotString
  | trailingComma
  | tooDeep
  | trailingCharacters
deriving DecidableEq, Repr

def Cause.message : Cause → String
  | .endInValue => "EOF while parsing a value"
  | .endInString => "EOF while parsing a string"
  | .endInList => "EOF while parsing a list"
  | .endInObject => "EOF while parsing an object"
  | .expectedValue => "expected value"
  | .expectedLiteral => "expected ident"
  | .invalidNumber => "invalid number"
  | .numberOutOfRange => "number out of range"
  | .controlCharacter => "control character (\\u0000-\\u001F) found while parsing a string"
  | .invalidEscape => "invalid escape"
  | .loneSurrogate => "lone leading surrogate in hex escape"
  | .unfinishedSurrogate => "unexpected end of hex escape"
  | .expectedListSeparator => "expected `,` or `]`"
  | .expectedObjectSeparator => "expected `,` or `\x7d`"
  | .expectedColon => "expected `:`"
  | .keyNotString => "key must be a string"
  | .trailingComma => "trailing comma"
  | .tooDeep => "recursion limit exceeded"
  | .trailingCharacters => "trailing characters"

/-- A cause, and where in the text it was noticed. -/
structure SyntaxFault where
  cause : Cause
  line : Nat
  column : Nat
deriving DecidableEq, Repr

def SyntaxFault.message (f : SyntaxFault) : String :=
  f.cause.message ++ " at line " ++ toString f.line ++ " column " ++ toString f.column

/-- The line and the column that `offset` bytes of a text lead to; `line` and `column` are those of
its beginning. -/
def locate (offset line column : Nat) : List Char → Nat × Nat
  | [] => (line, column + offset)
  | c :: rest =>
    if offset < c.utf8Size then (line, column + offset)
    else if c = '\n' then locate (offset - 1) (line + 1) 0 rest
    else locate (offset - c.utf8Size) line (column + c.utf8Size) rest

end AgentSurface.Json
