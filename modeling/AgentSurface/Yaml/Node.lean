import AgentSurface.Text.Numeral

/-!
# Yaml — nodes

What a text in YAML stands for, before anyone asks what its scalars mean.  The language is the part
of YAML without anchors, tags, directives and block scalars.
-/

namespace AgentSurface.Yaml

inductive Node where
  /-- A scalar; it is plain if no quotes stand around it. -/
  | scalar (text : String) (plain : Bool)
  | list (items : List Node)
  | mapping (members : List (Node × Node))

namespace Node

/-- The node of a place where nothing is written. -/
def nothing : Node := .scalar "" true

instance : Inhabited Node := ⟨nothing⟩

/-- A place where nothing is written can be read as any empty container. -/
def isNothing : Node → Bool
  | .scalar text plain => plain && text.isEmpty
  | _ => false

/-! ### Readings -/

/-- Any scalar can be read as a text. -/
def text? : Node → Option String
  | .scalar text _ => some text
  | _ => none

/-- The text of a scalar that is plain. -/
def plain? : Node → Option String
  | .scalar text true => some text
  | _ => none

def items? (n : Node) : Option (List Node) :=
  match n with
  | .list items => some items
  | _ => if n.isNothing then some [] else none

/-- The members of a mapping whose keys are scalars. -/
def members? (n : Node) : Option (List (String × Node)) :=
  match n with
  | .mapping members => members.mapM fun (key, v) => key.text?.map fun key => (key, v)
  | _ => if n.isNothing then some [] else none

def bool? (n : Node) : Option Bool :=
  n.plain?.bind fun text =>
    if ["true", "True", "TRUE"].contains text then some true
    else if ["false", "False", "FALSE"].contains text then some false
    else none

/-- The node says that there is no value. -/
def isNull (n : Node) : Bool :=
  match n.plain? with
  | some text => ["", "null", "Null", "NULL", "~"].contains text
  | none => false

/-- The value of digits in a base, all of which must be digits of it. -/
def digitsIn? (base : Nat) (digits : List Char) : Option Nat :=
  if digits.isEmpty then none
  else
    digits.foldlM (fun n c =>
      let digit :=
        if c.isDigit then c.toNat - '0'.toNat
        else if c.isAlpha then c.toLower.toNat - 'a'.toNat + 10
        else base
      if digit < base then some (n * base + digit) else none) 0

/-- Digits behind a zero are no number. -/
def isPadded (digits : List Char) : Bool :=
  match digits with
  | '0' :: _ :: _ => digits.all Char.isDigit
  | _ => false

/-- The number of 64 bits that a plain scalar spells, behind one plus sign at most, in decimal or
behind `0x`, `0o` or `0b`. -/
def word? (n : Node) : Option Nat :=
  n.plain?.bind fun text =>
    let s := text.toList
    let s := if s.head? = some '+' then s.drop 1 else s
    let value :=
      match s with
      | '0' :: 'x' :: digits => digitsIn? 16 digits
      | '0' :: 'o' :: digits => digitsIn? 8 digits
      | '0' :: 'b' :: digits => digitsIn? 2 digits
      | digits => if isPadded digits then none else digitsIn? 10 digits
    value.bind fun n => if n < Text.wordLimit then some n else none

/-! ### Members of a record -/

/-- The member of a record under a key: the default if it is left out.  No key may stand twice. -/
def member {α : Type} (members : List (String × Node)) (key : String) (default : α)
    (decode : Node → Option α) : Option α :=
  match members.filter (·.1 == key) with
  | [] => some default
  | [(_, v)] => decode v
  | _ => none

end Node
end AgentSurface.Yaml
