import AgentSurface.Json.Path

/-!
# Schema — field errors

A field error says which part of a message is wrong, where in that part, and why.
-/

namespace AgentSurface.Schema

/-- The part of a message that a path begins at. -/
inductive Target where
  | message
  | entry
  | data
  | options
deriving DecidableEq, Repr

def Target.name : Target → String
  | .message => "message"
  | .entry => "entry"
  | .data => "data"
  | .options => "options"

inductive ErrorKind where
  /-- The envelope or an entry has not the form that is asked for. -/
  | structural
  /-- Data or options are not what the type of the component asks for. -/
  | schema
deriving DecidableEq, Repr

def ErrorKind.name : ErrorKind → String
  | .structural => "structural"
  | .schema => "schema"

structure FieldError where
  kind : ErrorKind
  target : Target
  path : Json.Path
  message : String
deriving DecidableEq, Repr

namespace FieldError

def text (e : FieldError) : String := e.target.name ++ " " ++ e.path.text ++ ": " ++ e.message

def toJson (e : FieldError) : Json :=
  .object [("kind", .string e.kind.name), ("target", .string e.target.name),
    ("path", e.path.toJson), ("message", .string e.message)]

end FieldError
end AgentSurface.Schema
