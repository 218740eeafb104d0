import AgentSurface.Json.Basic

/-!
# Update — the envelope

A surface update is an object whose members lie under fixed keys.  A value is taken for one as soon
as it has the outermost key.
-/

namespace AgentSurface.Update

/-- The outermost key. -/
def updateKey : String := "surfaceUpdate"

/-- The key of the component list. -/
def componentsKey : String := "components"

/-- The value is an object with the outermost key. -/
def isEnvelope (v : Json) : Bool :=
  match v with
  | .object fields => Json.Fields.has fields updateKey
  | _ => false

end AgentSurface.Update
