import AgentSurface.Json.Basic
import AgentSurface.Decimal.Shortest

/-!
# Json — writing

`render` writes a value without spaces, `pretty` with one member or element a line and two spaces
of indent.  A string escapes quotes, backslashes and control characters only.  A double is written
with the fewest digits that read back, positionally when its leading digit stands for a power of
ten from `10 ^ -5` to `10 ^ 15`.
-/

namespace AgentSurface.Json

/-! ### Strings -/

/-- The hexadecimal digit of a number below sixteen, in lower case. -/
def hexDigit (n : Nat) : Char :=
  if n < 10 then Char.ofNat ('0'.toNat + n) else Char.ofNat ('a'.toNat + (n - 10))

/-- A character inside quotes. -/
def escape (c : Char) : List Char :=
  if c = '"' then ['\\', '"']
  else if c = '\\' then ['\\', '\\']
  else if c = '\n' then ['\\', 'n']
  else if c = '\r' then ['\\', 'r']
  else if c = '\t' then ['\\', 't']
  else if c = '\x08' then ['\\', 'b']
  else if c = '\x0c' then ['\\', 'f']
  else if c.toNat < 0x20 then
    ['\\', 'u', '0', '0', hexDigit (c.toNat / 16), hexDigit (c.toNat % 16)]
  else [c]

def quote (s : String) : List Char := '"' :: (s.toList.flatMap escape ++ ['"'])

/-! ### Numbers -/

/-- The decimal digits of a number. -/
def digits (n : Nat) : List Char := Nat.toDigits 10 n

/-- A whole number, with a sign below zero. -/
def renderInt (n : Int) : List Char :=
  if n < 0 then '-' :: digits n.natAbs else digits n.natAbs

/-- Decimal digits, laid out. -/
def layout (d : Decimal.Digits) : List Char :=
  let ds := digits d.digits
  let lead := d.exponent + (ds.length : Int) - 1
  if -5 ≤ lead ∧ lead ≤ 15 then
    if 0 ≤ d.exponent then ds ++ List.replicate d.exponent.toNat '0' ++ ['.', '0']
    else if 0 ≤ lead then ds.take (lead.toNat + 1) ++ '.' :: ds.drop (lead.toNat + 1)
    else '0' :: '.' :: (List.replicate (-lead - 1).toNat '0' ++ ds)
  else
    let tail := ds.drop 1
    let mantissa := ds.take 1 ++ (if tail.isEmpty then [] else '.' :: tail)
    mantissa ++ 'e' :: (if lead < 0 then '-' else '+') :: digits lead.natAbs

/-- A finite double. -/
def renderFloat (x : Float) : List Char :=
  let bits := x.toBits
  let sign := if Decimal.isNegative bits then ['-'] else []
  let dyadic := Decimal.Dyadic.ofBits bits
  sign ++ (if dyadic.m = 0 then ['0', '.', '0'] else layout (Decimal.shortest dyadic))

def renderNumber : Number → List Char
  | .whole n => renderInt n.val
  | .real x _ => renderFloat x

/-! ### Values -/

mutual

/-- Without spaces. -/
def render : Json → List Char
  | .null => ['n', 'u', 'l', 'l']
  | .bool true => ['t', 'r', 'u', 'e']
  | .bool false => ['f', 'a', 'l', 's', 'e']
  | .number n => renderNumber n
  | .string s => quote s
  | .array [] => ['[', ']']
  | .array (v :: rest) => '[' :: (render v ++ renderItems rest)
  | .object [] => ['{', '}']
  | .object ((k, v) :: rest) => '{' :: (quote k ++ ':' :: (render v ++ renderFields rest))

/-- The elements behind the first, and the closing bracket. -/
def renderItems : List Json → List Char
  | [] => [']']
  | v :: rest => ',' :: (render v ++ renderItems rest)

/-- The members behind the first, and the closing brace. -/
def renderFields : List (String × Json) → List Char
  | [] => ['}']
  | (k, v) :: rest => ',' :: (quote k ++ ':' :: (render v ++ renderFields rest))

end

/-- A line break and the indent of a depth. -/
def newline (depth : Nat) : List Char := '\n' :: List.replicate (2 * depth) ' '

mutual

/-- One member or element a line; `depth` is the depth of the value. -/
def prettyAt (depth : Nat) : Json → List Char
  | .array [] => ['[', ']']
  | .array (v :: rest) =>
    '[' :: (newline (depth + 1) ++ prettyAt (depth + 1) v ++ prettyItems depth rest)
  | .object [] => ['{', '}']
  | .object ((k, v) :: rest) =>
    '{' :: (newline (depth + 1) ++ quote k ++ ':' :: ' ' :: prettyAt (depth + 1) v ++
      prettyFields depth rest)
  | .null => ['n', 'u', 'l', 'l']
  | .bool true => ['t', 'r', 'u', 'e']
  | .bool false => ['f', 'a', 'l', 's', 'e']
  | .number n => renderNumber n
  | .string s => quote s

/-- The elements behind the first, and the closing bracket. -/
def prettyItems (depth : Nat) : List Json → List Char
  | [] => newline depth ++ [']']
  | v :: rest => ',' :: (newline (depth + 1) ++ prettyAt (depth + 1) v ++ prettyItems depth rest)

/-- The members behind the first, and the closing brace. -/
def prettyFields (depth : Nat) : List (String × Json) → List Char
  | [] => newline depth ++ ['}']
  | (k, v) :: rest =>
    ',' :: (newline (depth + 1) ++ quote k ++ ':' :: ' ' :: prettyAt (depth + 1) v ++
      prettyFields depth rest)

end

/-- The text of a value without spaces. -/
def compact (v : Json) : String := String.ofList v.render

/-- The text of a value, indented. -/
def pretty (v : Json) : String := String.ofList (v.prettyAt 0)

end AgentSurface.Json
