/-!
# Jsx — what can be wrong with a source

A `Fault` says why a source is not in the restricted grammar.  Lines and columns count characters
from one.
-/

namespace AgentSurface.Jsx

/-- What should have stood at some place. -/
inductive Expected where
  | jsxElement
  | element
  | closingTag
  | name
  | nameSegment
  | tagEnd
  | tagEndAfterSlash
  | tagEndOrAttribute
  | attributeValue
  | closingQuote
  | commentEnd
  | braceAfterComment
  | brace
  | identifier
  | literal
  | escapeSequence
  | listSeparator
  | objectSeparator
  | objectKey
  | colon
deriving DecidableEq, Repr

def Expected.text : Expected → String
  | .jsxElement => "a JSX element"
  | .element => "an element"
  | .closingTag => "a closing tag"
  | .name => "a name"
  | .nameSegment => "a name segment after `.`"
  | .tagEnd => "`>`"
  | .tagEndAfterSlash => "`>` after `/`"
  | .tagEndOrAttribute => "`>` or an attribute"
  | .attributeValue => "an attribute value"
  | .closingQuote => "a closing quote"
  | .commentEnd => "`*/`"
  | .braceAfterComment => "`\x7d` after comment"
  | .brace => "`\x7d`"
  | .identifier => "an identifier"
  | .literal => "a literal"
  | .escapeSequence => "an escape sequence"
  | .listSeparator => "`,` or `]`"
  | .objectSeparator => "`,` or `\x7d`"
  | .objectKey => "an object key"
  | .colon => "`:`"

/-- Why a literal has no value. -/
inductive LiteralFault where
  | identifier (name : String)
  | badEscape
  | notNumber (text : String)
deriving DecidableEq, Repr

def LiteralFault.text : LiteralFault → String
  | .identifier name => "identifier `" ++ name ++ "` is not allowed inside a literal"
  | .badEscape => "bad \\u escape"
  | .notNumber text => "`" ++ text ++ "` is not a number"

inductive Fault where
  | endOfInput (expected : Expected)
  | unexpected (found : Char) (line column : Nat) (expected : Expected)
  | mismatchedClose (opened found : String)
  | invalidLiteral (line column : Nat) (reason : LiteralFault)
  | tooDeep (limit : Nat)
deriving DecidableEq, Repr

def Fault.message : Fault → String
  | .endOfInput expected => "unexpected end of input, expected " ++ expected.text
  | .unexpected found line column expected =>
    "unexpected `" ++ String.singleton found ++ "` at " ++ toString line ++ ":" ++
      toString column ++ ", expected " ++ expected.text
  | .mismatchedClose opened found =>
    "closing tag </" ++ found ++ "> does not match <" ++ opened ++ ">"
  | .invalidLiteral line column reason =>
    "invalid literal at " ++ toString line ++ ":" ++ toString column ++ ": " ++ reason.text
  | .tooDeep limit => "nesting deeper than " ++ toString limit ++ " levels"

/-- The line and the column behind some characters. -/
def locate (line column : Nat) : List Char → Nat × Nat
  | [] => (line, column)
  | c :: rest => if c = '\n' then locate (line + 1) 1 rest else locate line (column + 1) rest

end AgentSurface.Jsx
