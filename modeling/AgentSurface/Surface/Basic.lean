import AgentSurface.Json.Record
import AgentSurface.Update.Validation

/-!
# Surface — the components that are shown

A surface holds components by identifier, in the order in which the identifiers first came.  A
component that comes again takes its old place.  All operations are functions from a surface to a
surface.
-/

namespace AgentSurface

namespace Surface

structure Entry where
  id : String
  typeName : String
  data : Json
  options : Json
  /-- The catalog had its type. -/
  known : Bool
  /-- The number of its first appearance. -/
  seq : Nat
deriving BEq

end Surface

structure Surface where
  /-- The components under their keys, in order. -/
  entries : List (String × Surface.Entry) := []
  /-- The number of the next component that is new. -/
  nextSeq : Nat := 0
deriving BEq

namespace Surface

/-! ### Views -/

/-- The components in order. -/
def toList (s : Surface) : List Entry := s.entries.map (·.2)

def ids (s : Surface) : List String := s.entries.map (·.1)

def get? (s : Surface) (id : String) : Option Entry :=
  (s.entries.find? (·.1 == id)).map (·.2)

def contains (s : Surface) (id : String) : Bool := s.entries.any (·.1 == id)

def size (s : Surface) : Nat := s.entries.length

def isEmpty (s : Surface) : Bool := s.entries.isEmpty

/-! ### Taking components in -/

/-- An entry with new contents. -/
def Entry.update (old : Entry) (new : Update.ValidEntry) : Entry :=
  { old with
    typeName := new.typeName, data := new.data, options := new.options, known := new.known }

/-- The entry of a component that is new. -/
def Entry.ofValid (e : Update.ValidEntry) (seq : Nat) : Entry :=
  { id := e.id, typeName := e.typeName, data := e.data, options := e.options, known := e.known,
    seq }

/-- Update the entry under a key. -/
def updateIn (e : Update.ValidEntry) : List (String × Entry) → List (String × Entry)
  | [] => []
  | (key, old) :: rest =>
    if key == e.id then (key, old.update e) :: rest else (key, old) :: updateIn e rest

/-- Take a component in. -/
def upsert (s : Surface) (e : Update.ValidEntry) : Surface :=
  if s.contains e.id then { s with entries := updateIn e s.entries }
  else
    { entries := s.entries ++ [(e.id, .ofValid e s.nextSeq)], nextSeq := s.nextSeq + 1 }

/-- Take components in, one after the other. -/
def applyEntries (s : Surface) (entries : List Update.ValidEntry) : Surface :=
  entries.foldl upsert s

/-- Take in what passed the check of a message. -/
def applyMessage (s : Surface) (v : Update.Validation) : Surface := s.applyEntries v.valid

/-- Take in several messages. -/
def applyAll (s : Surface) (messages : List Update.Validation) : Surface :=
  messages.foldl applyMessage s

/-- Check a message and take in what passed. -/
def applyRaw (s : Surface) (catalog : Catalog) (message : Json) :
    Host (Surface × Update.Validation) := do
  let v ← Update.validate catalog message
  return (s.applyMessage v, v)

/-- A surface without components. -/
def reset (_ : Surface) : Surface := {}

/-! ### Wire form -/

/-- The number of an appearance is written with 64 bits. -/
def numberJson (n : Nat) : Json := Json.ofNat (n % Text.wordLimit)

def Entry.toJson (e : Entry) : Json :=
  .object [("id", .string e.id), ("typeName", .string e.typeName), ("data", e.data),
    ("options", e.options), ("known", .bool e.known), ("seq", numberJson e.seq)]

def toJson (s : Surface) : Json :=
  .object [("entries", .object (s.entries.map fun (key, e) => (key, e.toJson))),
    ("nextSeq", numberJson s.nextSeq)]

def Entry.ofJson? (v : Json) : Option Entry := do
  let r ← Json.Record.of? ["id", "typeName", "data", "options", "known", "seq"] v
  let id ← r.field "id" Json.string?
  let typeName ← r.field "typeName" Json.string?
  let data ← r.field "data" Json.any?
  let options ← r.field "options" Json.any?
  let known ← r.field "known" Json.bool?
  let seq ← r.field "seq" Json.nat?
  return { id, typeName, data, options, known, seq }

def ofJson? (v : Json) : Option Surface := do
  let r ← Json.Record.of? ["entries", "nextSeq"] v
  let entries ← r.field "entries" (Json.members? Entry.ofJson?)
  let nextSeq ← r.field "nextSeq" Json.nat?
  return { entries, nextSeq }

/-- The component of an entry, as it stands in a message. -/
def Entry.component (e : Entry) : Json :=
  .object [("id", .string e.id),
    ("component", .object
      [(e.typeName, .object [("data", e.data), ("options", e.options)])])]

end Surface
end AgentSurface
