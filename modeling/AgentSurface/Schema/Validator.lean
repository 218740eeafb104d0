import AgentSurface.Host
import AgentSurface.Schema.Document
import AgentSurface.Schema.FieldError

/-!
# Schema — validators

A validator checks a payload and gives the errors of its fields, none if the payload is accepted.
It is code of the host, or a JSON Schema.
-/

namespace AgentSurface.Schema

structure Validator where
  /-- The errors of a payload, which is the given part of a message. -/
  check : Json → Target → Host (List FieldError)
  /-- The JSON Schema that the validator goes by, if it does. -/
  schema : Option Json := none

namespace Validator

/-- A validator that never panics. -/
def ofFunction (check : Json → Target → List FieldError) : Validator :=
  { check := fun v target => .ok (check v target) }

/-- The errors of the fields of a payload under a schema. -/
def documentErrors (d : Document) (v : Json) (target : Target) : List FieldError :=
  (d.violations v).map fun violation => ⟨.schema, target, violation.path, violation.message⟩

/-- The validator of a JSON Schema; nothing if the value is none. -/
def ofSchema? (schema : Json) : Option Validator :=
  (Document.ofJson? schema).map fun d =>
    { check := fun v target => .ok (documentErrors d v target), schema := some schema }

/-- The validator gives a result for every payload. -/
def Pure (validator : Validator) : Prop :=
  ∀ v target, ∃ errors, validator.check v target = .ok errors

end Validator
end AgentSurface.Schema
