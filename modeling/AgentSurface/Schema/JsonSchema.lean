import AgentSurface.Json.Path
import AgentSurface.Json.Printer

/-!
# Schema — JSON Schema

A schema is read from JSON once, by `Schema.ofJson?`, which refuses what is no schema.  Then
`Schema.violations` lists everything that is wrong with a value: in the order of the keywords, and
for each of them in the order of the schema, of the elements or of the required names.

The keywords are those of the components here: `type`, `properties`, `required`, `items`, `enum`,
`minimum`, `maximum`, `anyOf` and references into `$defs`.  Other keywords say nothing about a value.
-/

namespace AgentSurface

/-! ### Types and numbers -/

/-- The names of types, in alphabetical order. -/
inductive Json.TypeName where
  | array
  | boolean
  | integer
  | null
  | number
  | object
  | string
deriving DecidableEq, Repr

namespace Json.TypeName

def all : List TypeName := [.array, .boolean, .integer, .null, .number, .object, .string]

def name : TypeName → String
  | .array => "array"
  | .boolean => "boolean"
  | .integer => "integer"
  | .null => "null"
  | .number => "number"
  | .object => "object"
  | .string => "string"

def ofName? (name : String) : Option TypeName := all.find? (·.name == name)

end Json.TypeName

/-- The number has no fraction. -/
def Json.Number.isIntegral : Number → Bool
  | .whole _ => true
  | .real x _ => x.floor == x

/-- The value is of the type as it is written: a double is no integer. -/
def Json.isWrittenAs (v : Json) (t : TypeName) : Bool :=
  match v, t with
  | .null, .null | .bool _, .boolean | .number _, .number | .string _, .string => true
  | .array _, .array | .object _, .object => true
  | .number (.whole _), .integer => true
  | _, _ => false

/-- The value is of the type; a double without fraction is an integer. -/
def Json.isOf (v : Json) (t : TypeName) : Bool :=
  match v, t with
  | .number n, .integer => n.isIntegral
  | _, _ => v.isWrittenAs t

/-- The value is of one of the types; among several, it must be so as it is written. -/
def Json.isOneOf (v : Json) (types : List TypeName) : Bool :=
  match types with
  | [t] => v.isOf t
  | several => several.any v.isWrittenAs

/-- A number as `m · 2 ^ q`. -/
def Json.Number.dyadic : Number → Int × Int
  | .whole n => (n.val, 0)
  | .real x _ =>
    let bits := x.toBits
    let d := Decimal.Dyadic.ofBits bits
    (if Decimal.isNegative bits then -(d.m : Int) else d.m, d.q)

/-- Less by value. -/
def Json.Number.less (a b : Number) : Bool :=
  let (m, p) := a.dyadic
  let (n, q) := b.dyadic
  m * Nat.pow 2 (p - min p q).toNat < n * Nat.pow 2 (q - min p q).toNat

/-- Equal by value. -/
def Json.Number.same (a b : Number) : Bool := !a.less b && !b.less a

mutual

/-- Equal, where numbers are equal by value.  Members are compared in their order. -/
def Json.same : Json → Json → Bool
  | .null, .null => true
  | .bool a, .bool b => a == b
  | .number a, .number b => a.same b
  | .string a, .string b => a == b
  | .array as, .array bs => Json.sameItems as bs
  | .object as, .object bs => Json.sameMembers as bs
  | _, _ => false

def Json.sameItems : List Json → List Json → Bool
  | [], [] => true
  | a :: as, b :: bs => Json.same a b && Json.sameItems as bs
  | _, _ => false

def Json.sameMembers : List (String × Json) → List (String × Json) → Bool
  | [], [] => true
  | (k, a) :: as, (l, b) :: bs => k == l && Json.same a b && Json.sameMembers as bs
  | _, _ => false

end

/-! ### Schemas -/

inductive Schema where
  /-- `true` or `false`. -/
  | constant (accepts : Bool)
  | types (names : List Json.TypeName)
  | properties (schemas : List (String × Schema))
  | required (names : List String)
  | each (schema : Schema)
  | enumeration (values : List Json)
  | minimum (limit : Json.Number)
  | maximum (limit : Json.Number)
  | anyOf (schemas : List Schema)
  | reference (name : String)
  /-- All keywords of an object. -/
  | all (schemas : List Schema)

namespace Schema

/-- What is wrong, and where. -/
structure Violation where
  path : Json.Path
  message : String
deriving DecidableEq, Repr

/-- The violation one step further up. -/
def Violation.under (segment : Json.Segment) (v : Violation) : Violation :=
  { v with path := segment :: v.path }

/-- A schema, and the schemas it refers to. -/
structure Document where
  root : Schema
  definitions : List (String × Schema)

def Document.find? (d : Document) (name : String) : Option Schema :=
  (d.definitions.find? (·.1 == name)).map (·.2)

/-! ### Violations -/

/-- A violation at the root. -/
def here (message : String) : List Violation := [⟨[], message⟩]

/-- The value is none of these types. -/
def typeMessage (v : Json) (names : List Json.TypeName) : String :=
  let quoted (t : Json.TypeName) := "\"" ++ t.name ++ "\""
  match Json.TypeName.all.filter names.contains with
  | [one] => v.compact ++ " is not of type " ++ quoted one
  | several => v.compact ++ " is not of types " ++ String.intercalate ", " (several.map quoted)

/-- The names that a value has not, if it is an object. -/
def missing (v : Json) (names : List String) : List Violation :=
  match v with
  | .object fields =>
    (names.filter fun name => !Json.Fields.has fields name).map fun name =>
      ⟨[], (Json.string name).compact ++ " is a required property"⟩
  | _ => []

/-- A bound on numbers. -/
def bound (v : Json) (holds : Json.Number → Bool) (text : String) (limit : Json.Number) :
    List Violation :=
  match v with
  | .number n =>
    if holds n then [] else here (v.compact ++ text ++ (Json.number limit).compact)
  | _ => []

theorem sizeOf_get?_lt {fields : Json.Fields} {key : String} {v : Json}
    (h : Json.Fields.get? fields key = some v) : sizeOf v < sizeOf (Json.object fields) := by
  simp only [Json.Fields.get?, Option.map_eq_some_iff] at h
  obtain ⟨⟨k, w⟩, hm, rfl⟩ := h
  have := List.sizeOf_lt_of_mem (List.mem_of_find?_eq_some hm)
  simp only [Json.object.sizeOf_spec, Prod.mk.sizeOf_spec] at this ⊢
  omega

mutual

/-- Everything that is wrong with a value.  `references` bounds how many references may be followed
at one place of the value; more than there are definitions lead in a circle. -/
def violations (d : Document) (references : Nat) (schema : Schema) (v : Json) : List Violation :=
  match schema with
  | .constant true => []
  | .constant false => here ("False schema does not allow " ++ v.compact)
  | .types names => if v.isOneOf names then [] else here (typeMessage v names)
  | .properties schemas => propertyViolations d references schemas v
  | .required names => missing v names
  | .each schema =>
    match v with
    | .array items => itemViolations d schema 0 items
    | _ => []
  | .enumeration values =>
    if values.any (Json.same · v) then []
    else here (v.compact ++ " is not one of " ++ (Json.array values).compact)
  | .minimum limit => bound v (fun n => !n.less limit) " is less than the minimum of " limit
  | .maximum limit => bound v (fun n => !limit.less n) " is greater than the maximum of " limit
  | .anyOf schemas =>
    if anyHolds d references schemas v then []
    else
      here (v.compact ++ " is not valid under any of the schemas listed in the 'anyOf' keyword")
  | .reference name =>
    match references with
    | 0 => []
    | n + 1 =>
      match d.find? name with
      | some target => violations d n target v
      | none => []
  | .all schemas => allViolations d references schemas v
termination_by (sizeOf v, references, sizeOf schema)
decreasing_by all_goals simp_wf; all_goals simp_all [Prod.lex_def]

def allViolations (d : Document) (references : Nat) (schemas : List Schema) (v : Json) :
    List Violation :=
  match schemas with
  | [] => []
  | schema :: rest => violations d references schema v ++ allViolations d references rest v
termination_by (sizeOf v, references, sizeOf schemas)
decreasing_by all_goals simp_wf; all_goals simp_all [Prod.lex_def]; all_goals omega

def anyHolds (d : Document) (references : Nat) (schemas : List Schema) (v : Json) : Bool :=
  match schemas with
  | [] => false
  | schema :: rest => (violations d references schema v).isEmpty || anyHolds d references rest v
termination_by (sizeOf v, references, sizeOf schemas)
decreasing_by all_goals simp_wf; all_goals simp_all [Prod.lex_def]; all_goals omega

/-- The members that the schema names, in its order. -/
def propertyViolations (d : Document) (references : Nat) (schemas : List (String × Schema))
    (v : Json) : List Violation :=
  match schemas with
  | [] => []
  | (key, schema) :: rest =>
    let first :=
      match v with
      | .object fields =>
        match _h : Json.Fields.get? fields key with
        | some member =>
          (violations d d.definitions.length schema member).map (.under (.key key))
        | none => []
      | _ => []
    first ++ propertyViolations d references rest v
termination_by (sizeOf v, references, sizeOf schemas)
decreasing_by
  · have := sizeOf_get?_lt _h
    simp_all [Prod.lex_def]
  · refine Prod.Lex.right _ (Prod.Lex.right _ ?_)
    simp only [List.cons.sizeOf_spec]
    omega

/-- The elements from the `i`-th on. -/
def itemViolations (d : Document) (schema : Schema) (i : Nat) (items : List Json) :
    List Violation :=
  match items with
  | [] => []
  | item :: rest =>
    (violations d d.definitions.length schema item).map (.under (.index i)) ++
      itemViolations d schema (i + 1) rest
termination_by (sizeOf items, 0, 0)
decreasing_by all_goals simp_wf; all_goals simp_all [Prod.lex_def]; all_goals omega

end

/-- Everything that is wrong with a value. -/
def Document.violations (d : Document) (v : Json) : List Violation :=
  Schema.violations d d.definitions.length d.root v

end Schema
end AgentSurface
