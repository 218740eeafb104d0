import AgentSurface.Json.Number

/-!
# Json — values

A `Json` value keeps the members of an object in order, and numbers as they were typed.  In a value
as it is written a key may stand twice.  Objects that are settled or built here have no key twice:
`Fields.insert` gives a key that is present its new value in its old place, and puts a new key last.
-/

namespace AgentSurface

inductive Json where
  | null
  | bool (b : Bool)
  | number (n : Json.Number)
  | string (s : String)
  | array (items : List Json)
  | object (fields : List (String × Json))
deriving BEq

namespace Json

/-- The members of an object, in order. -/
abbrev Fields := List (String × Json)

instance : Inhabited Json := ⟨.null⟩

/-! ### Members -/

/-- The value under a key. -/
def Fields.get? (fields : Fields) (key : String) : Option Json :=
  (fields.find? (·.1 == key)).map (·.2)

/-- The key is present. -/
def Fields.has (fields : Fields) (key : String) : Bool :=
  fields.any (·.1 == key)

def Fields.keys (fields : Fields) : List String := fields.map (·.1)

/-- Put a value under a key: in the key's place if it is present, else last. -/
def Fields.insert : Fields → String → Json → Fields
  | [], key, v => [(key, v)]
  | (k, old) :: rest, key, v =>
    if k == key then (k, v) :: rest else (k, old) :: Fields.insert rest key v

/-- Take a key out; the last member moves into its place. -/
def Fields.takeOut : Fields → String → Fields
  | [], _ => []
  | (k, v) :: rest, key =>
    if k == key then
      match rest.getLast? with
      | some last => last :: rest.dropLast
      | none => []
    else (k, v) :: Fields.takeOut rest key

/-- Put members into an object one after the other. -/
def Fields.merge (fields : Fields) (more : Fields) : Fields :=
  more.foldl (fun fs (k, v) => fs.insert k v) fields

/-- Members from a list in which a key may stand more than once. -/
def Fields.ofList (members : Fields) : Fields := Fields.merge [] members

mutual

/-- The value with every key once in each object: with its last value, in its first place. -/
def settled : Json → Json
  | .array items => .array (settledItems items)
  | .object members => .object (Fields.ofList (settledMembers members))
  | v => v

def settledItems : List Json → List Json
  | [] => []
  | v :: rest => settled v :: settledItems rest

def settledMembers : List (String × Json) → List (String × Json)
  | [] => []
  | (key, v) :: rest => (key, settled v) :: settledMembers rest

end

/-! ### Views of a value -/

/-- The members of an object; nothing for any other value. -/
def fields? : Json → Option Fields
  | .object fields => some fields
  | _ => none

def items? : Json → Option (List Json)
  | .array items => some items
  | _ => none

def string? : Json → Option String
  | .string s => some s
  | _ => none

def bool? : Json → Option Bool
  | .bool b => some b
  | _ => none

def number? : Json → Option Number
  | .number n => some n
  | _ => none

/-- The whole number, if the value is one by type. -/
def int? (v : Json) : Option Int := v.number?.bind Number.toInt?

/-- The number of 64 bits without sign, if the value is one by type. -/
def nat? (v : Json) : Option Nat :=
  v.int?.bind fun n => if 0 ≤ n then some n.toNat else none

/-- The member of an object; nothing for any other value. -/
def get? (v : Json) (key : String) : Option Json := v.fields?.bind (·.get? key)

/-! ### Building values -/

def emptyObject : Json := .object []

/-- A natural number; beyond 64 bits, the nearest double. -/
def ofNat (n : Nat) : Json :=
  match Number.ofInt? n with
  | some whole => .number whole
  | none =>
    match Number.ofFloat? (Float.ofNat n) with
    | some real => .number real
    | none => .null

def ofStrings (texts : List String) : Json := .array (texts.map .string)

/-- A value that may be missing is `null` then. -/
def orNull (v : Option Json) : Json := v.getD .null

end Json
end AgentSurface
