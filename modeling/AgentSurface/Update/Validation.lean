import AgentSurface.Catalog.Basic
import AgentSurface.Update.Envelope

/-!
# Update — validation

A message is checked component by component: first its form, then, if its type is in the catalog,
its data and options.  A type that the catalog does not have is let through as unknown.  The check
never fails; what is wrong is part of the result, and components do not influence each other.
-/

namespace AgentSurface.Update

open Schema (FieldError Target)

/-- A component that passed, with the options that hold for it. -/
structure ValidEntry where
  /-- Its place among the components of the message. -/
  index : Nat
  id : String
  typeName : String
  data : Json
  options : Json
  /-- The catalog has its type. -/
  known : Bool
deriving BEq

/-- A component that did not pass; without an index, the whole message. -/
structure InvalidEntry where
  index : Option Nat
  id : Option String
  typeName : Option String
  entry : Json
  errors : List FieldError
deriving BEq

structure Validation where
  valid : List ValidEntry := []
  invalid : List InvalidEntry := []
deriving BEq

/-! ### The envelope -/

/-- Why a message has no components to look at. -/
inductive EnvelopeFault where
  | notObject
  | noUpdate
  | noComponents
deriving DecidableEq, Repr

def EnvelopeFault.message : EnvelopeFault → String
  | .notObject => "message must be a JSON object"
  | .noUpdate => "message must contain an object under `" ++ updateKey ++ "`"
  | .noComponents => "`" ++ updateKey ++ "." ++ componentsKey ++ "` must be an array"

/-- The components of a message. -/
def components (message : Json) : Except EnvelopeFault (List Json) :=
  match message with
  | .object fields =>
    match Json.Fields.get? fields updateKey with
    | some (.object update) =>
      match Json.Fields.get? update componentsKey with
      | some (.array items) => .ok items
      | _ => .error .noComponents
    | _ => .error .noUpdate
  | _ => .error .notObject

/-! ### The form of a component -/

/-- A component of the right form. -/
structure Shape where
  id : String
  typeName : String
  payload : Json.Fields

/-- What may be wrong with the form of a component. -/
inductive EntryFault where
  | notObject
  | noId
  | noComponent
  | notOneType (count : Nat)
  | payloadNotObject (typeName : String)
deriving DecidableEq, Repr

def EntryFault.message : EntryFault → String
  | .notObject => "component entry must be an object"
  | .noId => "component entry must have a string `id`"
  | .noComponent => "component entry must have a `component` object"
  | .notOneType count =>
    "`component` must contain exactly one type name, found " ++ toString count
  | .payloadNotObject _ =>
    "component payload must be an object with `data` and optional `options`"

/-- Errors are told from the identifier of a component, or from its index if it has none. -/
def anchor (index : Nat) (id : Option String) : Json.Segment :=
  match id with
  | some id => .key id
  | none => .index index

/-- The error of a fault below an anchor. -/
def EntryFault.error (anchor : Json.Segment) (f : EntryFault) : FieldError :=
  let below : Json.Path :=
    match f with
    | .payloadNotObject typeName => [.key typeName]
    | _ => []
  ⟨.structural, .entry, anchor :: below, f.message⟩

/-- The type name and the payload of a component, as far as they are there. -/
def typeOf (fields : Json.Fields) : Except EntryFault (String × Json) :=
  match Json.Fields.get? fields "component" with
  | some (.object [(typeName, payload)]) => .ok (typeName, payload)
  | some (.object types) => .error (.notOneType types.length)
  | _ => .error .noComponent

/-- The form of a component, or everything that is wrong with it and what can be told of it. -/
def shape (raw : Json) : Except (Option String × Option String × List EntryFault) Shape :=
  match raw with
  | .object fields =>
    let id := (Json.Fields.get? fields "id").bind Json.string?
    let noId := if id.isNone then [EntryFault.noId] else []
    match typeOf fields with
    | .error fault => .error (id, none, noId ++ [fault])
    | .ok (typeName, .object payload) =>
      match id with
      | some id => .ok { id, typeName, payload }
      | none => .error (none, some typeName, noId)
    | .ok (typeName, _) => .error (id, some typeName, noId ++ [.payloadNotObject typeName])
  | _ => .error (none, none, [.notObject])

/-! ### Components -/

/-- The data of a payload; nothing and `null` stand for an empty object. -/
def dataOf (payload : Json.Fields) : Json :=
  match Json.Fields.get? payload "data" with
  | none | some .null => Json.emptyObject
  | some data => data

/-- The options of a component whose type is unknown. -/
def plainOptions (given : Option Json) : Json :=
  match given with
  | some (.object options) => .object options
  | _ => Json.emptyObject

/-- The errors of data and options together, and the options that hold if there are none. -/
def checkPayload (entry : Catalog.Entry) (data : Json) (given : Option Json) :
    Host (Except (List FieldError) Json) := do
  let dataErrors ← entry.validateData data
  let options ← entry.resolveOptions given
  match options with
  | .ok options => return if dataErrors.isEmpty then .ok options else .error dataErrors
  | .error optionErrors => return .error (dataErrors ++ optionErrors)

/-- Check the component at a place of the message. -/
def validateEntry (catalog : Catalog) (index : Nat) (raw : Json) :
    Host (Except InvalidEntry ValidEntry) :=
  match shape raw with
  | .error (id, typeName, faults) =>
    return .error
      { index := some index, id, typeName, entry := raw,
        errors := faults.map (EntryFault.error (anchor index id)) }
  | .ok s =>
    let data := dataOf s.payload
    let given := Json.Fields.get? s.payload "options"
    match catalog.get? s.typeName with
    | none =>
      return .ok
        { index, id := s.id, typeName := s.typeName, data, options := plainOptions given,
          known := false }
    | some entry => do
      match ← checkPayload entry data given with
      | .ok options =>
        return .ok { index, id := s.id, typeName := s.typeName, data, options, known := true }
      | .error errors =>
        return .error
          { index := some index, id := some s.id, typeName := some s.typeName, entry := raw,
            errors }

/-- Put a verdict in front. -/
def Validation.add (v : Validation) : Except InvalidEntry ValidEntry → Validation
  | .ok entry => { v with valid := entry :: v.valid }
  | .error entry => { v with invalid := entry :: v.invalid }

/-- Check components, the first of which is at a place of the message. -/
def validateFrom (catalog : Catalog) (index : Nat) : List Json → Host Validation
  | [] => return {}
  | raw :: rest => do
    let verdict ← validateEntry catalog index raw
    let later ← validateFrom catalog (index + 1) rest
    return later.add verdict

/-- What is said about a message without components. -/
def rejected (message : Json) (fault : EnvelopeFault) : Validation :=
  { invalid :=
      [{ index := none, id := none, typeName := none, entry := message,
         errors := [⟨.structural, .message, [], fault.message⟩] }] }

/-- Check a message. -/
def validate (catalog : Catalog) (message : Json) : Host Validation :=
  match components message with
  | .ok items => validateFrom catalog 0 items
  | .error fault => return rejected message fault

namespace Validation

/-- Everything passed. -/
def isClean (v : Validation) : Bool := v.invalid.isEmpty

/-- The components with a type of the catalog. -/
def known (v : Validation) : List ValidEntry := v.valid.filter (·.known)

/-- The components without a type of the catalog. -/
def unknown (v : Validation) : List ValidEntry := v.valid.filter fun e => !e.known

/-- How a component that did not pass is called. -/
def label (e : InvalidEntry) : String :=
  match e.id, e.typeName, e.index with
  | some id, some typeName, _ => "component `" ++ id ++ "` (" ++ typeName ++ ")"
  | some id, none, _ => "component `" ++ id ++ "`"
  | none, _, some index => "component #" ++ toString index
  | none, _, none => "message"

/-- The lines about a component that did not pass. -/
def report (e : InvalidEntry) : String :=
  "- " ++ label e ++ ":\n" ++ String.join (e.errors.map fun error => "  - " ++ error.text ++ "\n")

/-- What a model can be told to correct itself; nothing if everything passed. -/
def feedback (v : Validation) : Option String :=
  if v.isClean then none
  else some ("Some A2UI components were rejected:\n" ++ String.join (v.invalid.map report))

end Validation

/-! ### Wire form -/

def ValidEntry.toJson (e : ValidEntry) : Json :=
  .object [("index", Json.ofNat e.index), ("id", .string e.id), ("typeName", .string e.typeName),
    ("data", e.data), ("options", e.options), ("known", .bool e.known)]

def InvalidEntry.toJson (e : InvalidEntry) : Json :=
  .object [("index", Json.orNull (e.index.map Json.ofNat)), ("id", Json.orNull (e.id.map .string)),
    ("typeName", Json.orNull (e.typeName.map .string)), ("entry", e.entry),
    ("errors", .array (e.errors.map FieldError.toJson))]

def Validation.toJson (v : Validation) : Json :=
  .object [("valid", .array (v.valid.map ValidEntry.toJson)),
    ("invalid", .array (v.invalid.map InvalidEntry.toJson))]

end AgentSurface.Update
