import AgentSurface.Render.Bindings
import AgentSurface.Surface.Basic

/-!
# Render — from blocks to views

Every block becomes one view: prose is shown as it is, a JSX tree by what its names are bound to, and
a surface update component by component.  Code of the host runs in isolation: an error or a panic
in it leaves a fallback in the place of what it should have shown.
-/

namespace AgentSurface.Render

open Catalog (RenderError)

/-! ### Isolation -/

/-- The view of code of the host; a panic in it becomes a fallback. -/
def isolate (scope : String) (view : Host View) : View :=
  match view with
  | .ok v => v
  | .error panic => .renderError scope (RenderError.panicked panic.message).message

/-- The view that code of the host gives, or a fallback for its error. -/
def orError (scope : String) (result : Except RenderError View) : View :=
  match result with
  | .ok v => v
  | .error e => .renderError scope e.message

/-- Run a render function in isolation. -/
def runRenderer (scope : String) (result : Host (Except RenderError View)) : View :=
  isolate scope (result.map (orError scope))

/-! ### Components -/

/-- A component that passed its check; `raw` is what it was read from. -/
def component (catalog : Catalog) (props : Catalog.ComponentProps) (known : Bool) (raw : Json) :
    View :=
  let unknown := View.fallback (.unknownType props.id props.typeName raw)
  match catalog.get? props.typeName with
  | some entry =>
    if known then
      match entry.render with
      | some render => runRenderer props.id (render props)
      | none => .component props.id props.typeName props.data props.options
    else unknown
  | none => unknown

/-- The component at a place of a message. -/
def componentAt (message : Json) (index : Nat) : Json :=
  match Update.components message with
  | .ok items => (items[index]?).getD .null
  | .error _ => .null

/-- A component of a message that passed. -/
def validEntry (catalog : Catalog) (message : Json) (e : Update.ValidEntry) : View :=
  component catalog ⟨e.id, e.typeName, e.data, e.options⟩ e.known (componentAt message e.index)

/-- A component of a message that did not pass. -/
def invalidEntry (e : Update.InvalidEntry) : View :=
  .fallback (.validationError e.id e.typeName e.errors e.entry)

/-- The order of components; what has no place comes first. -/
def before (a b : Option Nat × View) : Bool :=
  match a.1, b.1 with
  | none, _ => true
  | some _, none => false
  | some i, some j => i ≤ j

/-- A message that was checked: a view for each component, in the order of the message. -/
def validation (catalog : Catalog) (message : Json) (v : Update.Validation) : View :=
  let views : List (Option Nat × View) :=
    v.valid.map (fun e => (some e.index, validEntry catalog message e)) ++
      v.invalid.map (fun e => (e.index, invalidEntry e))
  .fragment ((views.mergeSort before).map (·.2))

/-! ### JSX trees -/

/-- Put a view into a slot; slots are kept by growing name. -/
def putSlot (name : String) (v : View) : List (String × View) → List (String × View)
  | [] => [(name, v)]
  | (n, old) :: rest =>
    if name = n then (n, v) :: rest
    else if name < n then (name, v) :: (n, old) :: rest
    else (n, old) :: putSlot name v rest

/-- The identifier, options and data that the properties of a component give.  What is not under one
of these names are the data, unless data are given. -/
def componentParts (typeName : String) (props : Json.Fields) : String × Option Json × Json :=
  let id := ((props.get? "id").bind Json.string?).getD ("jsx-" ++ Text.lowercase typeName)
  let rest := props.takeOut "id"
  let options := rest.get? "options"
  let rest := rest.takeOut "options"
  (id, options, (rest.get? "data").getD (.object rest))

/-- A type of the catalog, used as an element. -/
def catalogElement (catalog : Catalog) (entry : Catalog.Entry) (props : Json.Fields) :
    Host View := do
  let (id, given, data) := componentParts entry.typeName props
  match ← Update.checkPayload entry data given with
  | .error errors =>
    return .fallback (.validationError (some id) (some entry.typeName) errors (.object props))
  | .ok options =>
    return component catalog ⟨id, entry.typeName, data, options⟩ true (.object props)

/-- An element whose name stands for something. -/
def resolved (bs : Bindings) (target : Resolved) (props : ElementProps) : Host View :=
  match target with
  | .element => return .element props.name props.props props.slots props.children
  | .custom render => return runRenderer props.name (render props)
  | .component entry => catalogElement bs.catalog entry props.props

/-- A name in the place of an element is an element without attributes and children. -/
def ident (bs : Bindings) (name : String) : Host View :=
  match bs.resolve name with
  | none => return .fallback (.unknownComponent name)
  | some target => resolved bs target ⟨name, [], [], []⟩

/-- Attributes as properties, if their value is a literal, and as slots, if it is a name. -/
def attributes (bs : Bindings) (props : Json.Fields) (slots : List (String × View)) :
    List Jsx.Attribute → Host (Json.Fields × List (String × View))
  | [] => return (props, slots)
  | a :: rest =>
    match a.value with
    | .literal v => attributes bs (props.insert a.name v) slots rest
    | .ident name => do
      let v ← ident bs name
      attributes bs props (putSlot a.name v slots) rest

/-- A literal among children. -/
def literal (v : Json) : View :=
  match v with
  | .null => .fragment []
  | .string s => .text s
  | other => .text other.compact

mutual

/-- A node of a JSX tree. -/
def node (bs : Bindings) : Jsx.Node → Host View
  | .text t => return .text t
  | .fragment children => do
    let views ← nodes bs children
    return .fragment views
  | .expression (.ident name) => ident bs name
  | .expression (.literal v) => return literal v
  | .element name attrs children =>
    match bs.resolve name with
    | none => return .fallback (.unknownComponent name)
    | some target => do
      let (props, slots) ← attributes bs [] [] attrs
      let views ← nodes bs children
      resolved bs target ⟨name, props, slots, views⟩

def nodes (bs : Bindings) : List Jsx.Node → Host (List View)
  | [] => return []
  | n :: rest => do
    let v ← node bs n
    let views ← nodes bs rest
    return v :: views

end

/-! ### Blocks -/

/-- One view stands alone, several or none in a fragment. -/
def gather (views : List View) : View :=
  match views with
  | [v] => v
  | views => .fragment views

/-- What a block is shown as. -/
def blockContent (bs : Bindings) : Stream.Block → Host View
  | .text t => return .markdown t
  | .jsx _ tree => (nodes bs tree).map gather
  | .update message _ => do
    let v ← Update.validate bs.catalog message
    return validation bs.catalog message v
  | .fault kind raw reason => return .fallback (.parseError kind raw reason)

/-- What a block is called in a fallback. -/
def scope (index : Nat) (b : Stream.Block) : String := b.kindName ++ " block #" ++ toString index

/-- The view of the block at a place. -/
def block (bs : Bindings) (index : Nat) (b : Stream.Block) : View :=
  isolate (scope index b) (blockContent bs b)

/-- The views of blocks, the first of which is at a place. -/
def blocksFrom (bs : Bindings) (index : Nat) : List Stream.Block → List View
  | [] => []
  | b :: rest => block bs index b :: blocksFrom bs (index + 1) rest

/-- A view for every block. -/
def blocks (bs : Bindings) (list : List Stream.Block) : List View := blocksFrom bs 0 list

/-- The view of what is not settled yet. -/
def pending (p : Stream.Pending) : View :=
  match p with
  | .text t => .streaming none t none
  | .fence kind content preview => .streaming (some kind) content preview

/-! ### Surfaces -/

/-- Views of blocks, and the surface with their updates taken in. -/
def intoSurfaceFrom (bs : Bindings) (index : Nat) (surface : Surface) :
    List Stream.Block → Host (List View × Surface)
  | [] => return ([], surface)
  | b :: rest => do
    let (view, next) ←
      match b with
      | .update message _ => do
        let v ← Update.validate bs.catalog message
        pure (isolate (scope index b) (.ok (validation bs.catalog message v)), surface.applyMessage v)
      | b => pure (block bs index b, surface)
    let (views, last) ← intoSurfaceFrom bs (index + 1) next rest
    return (view :: views, last)

/-- A view for every block, and the surface with their updates taken in. -/
def intoSurface (bs : Bindings) (list : List Stream.Block) (surface : Surface) :
    Host (List View × Surface) :=
  intoSurfaceFrom bs 0 surface list

/-- The view of a component of a surface. -/
def surfaceEntry (bs : Bindings) (e : Surface.Entry) : View :=
  isolate e.id
    (.ok (component bs.catalog ⟨e.id, e.typeName, e.data, e.options⟩ e.known e.component))

/-- A view for every component of a surface, in order. -/
def surface (bs : Bindings) (s : Surface) : List View := s.toList.map (surfaceEntry bs)

end AgentSurface.Render
