import AgentSurface.Json.Basic

/-!
# Json — records

A record is written as an object, or as the list of its fields in order.  An object may have members
that the record does not know, which are passed over, but none twice that it knows; a list must not
be longer than the record.
-/

namespace AgentSurface.Json

/-- What is written of a record, by field. -/
structure Record where
  fields : Fields

namespace Record

/-- The value as a record of fields with these names. -/
def of? (names : List String) (v : Json) : Option Record :=
  match v with
  | .object fields =>
    if names.all fun name => (fields.filter (·.1 == name)).length ≤ 1 then some ⟨fields⟩ else none
  | .array items => if items.length ≤ names.length then some ⟨names.zip items⟩ else none
  | _ => none

/-- What is written for a field. -/
def get? (r : Record) (name : String) : Option Json := r.fields.get? name

/-- A field that must be written. -/
def field {α : Type} (r : Record) (name : String) (decode : Json → Option α) : Option α :=
  (r.get? name).bind decode

/-- A field that may be left out. -/
def fieldD {α : Type} (r : Record) (name : String) (default : α)
    (decode : Json → Option α) : Option α :=
  match r.get? name with
  | some v => decode v
  | none => some default

/-- A field that may be left out or be `null`. -/
def field? {α : Type} (r : Record) (name : String) (decode : Json → Option α) :
    Option (Option α) :=
  match r.get? name with
  | none | some .null => some none
  | some v => (decode v).map some

end Record

/-! ### Fields of other types -/

/-- A name out of a list, as text or as the only key of an object over `null`. -/
def choice? {α : Type} (names : List (String × α)) (v : Json) : Option α :=
  let name? :=
    match v with
    | .string name => some name
    | .object [(name, .null)] => some name
    | _ => none
  name?.bind fun name => (names.find? (·.1 == name)).map (·.2)

/-- A whole number by type, from `low` to `high`. -/
def intBetween? (low high : Int) (v : Json) : Option Int :=
  v.int?.bind fun n => if low ≤ n ∧ n ≤ high then some n else none

/-- A number by value, as a double. -/
def real? (v : Json) : Option Number := v.number?.map Number.widen

/-- Any value, with its repeated keys settled. -/
def any? (v : Json) : Option Json := some v.settled

/-- The members of an object with values of any form. -/
def anyFields? (v : Json) : Option Fields := v.settled.fields?

/-- The members of an object, each decoded; a key that stands twice has its last value, in its first
place. -/
def members? {α : Type} (decode : Json → Option α) (v : Json) : Option (List (String × α)) :=
  v.fields?.bind fun fields =>
    if fields.all fun (_, member) => (decode member).isSome then
      (Fields.ofList fields).mapM fun (key, member) => (decode member).map fun m => (key, m)
    else none

/-- The elements of an array, each decoded. -/
def list? {α : Type} (decode : Json → Option α) (v : Json) : Option (List α) :=
  v.items?.bind fun items => items.mapM decode

/-! ### Writing fields -/

/-- A field that is written only if it has a value. -/
def maybe {α : Type} (name : String) (encode : α → Json) (v : Option α) : Fields :=
  match v with
  | some v => [(name, encode v)]
  | none => []

end AgentSurface.Json
