import AgentSurface.Catalog.Basic

/-!
# Render — bindings

The names that a JSX tree may use.  A name is bound to a plain element, which is handed to the host
as it is, or to a render function; and the types of a catalog may be used as well, unless they are
hidden.  All other names are unbound.
-/

namespace AgentSurface.Render

/-- What a bound element is shown from. -/
structure ElementProps where
  name : String
  props : Json.Fields
  /-- The attributes whose value was a name, already shown, by growing name. -/
  slots : List (String × View)
  children : List View

/-- Code of the host that shows an element. -/
abbrev ElementRenderer := ElementProps → Host (Except Catalog.RenderError View)

inductive Binding where
  | element
  | custom (render : ElementRenderer)

structure Bindings where
  /-- The types of components, in messages and, unless hidden, in JSX. -/
  catalog : Catalog
  /-- The bound names, in the order in which they were first bound. -/
  elements : List (String × Binding) := []
  catalogInJsx : Bool := true

/-- What a name stands for. -/
inductive Resolved where
  | element
  | custom (render : ElementRenderer)
  | component (entry : Catalog.Entry)

namespace Bindings

/-- Put a binding into a list: in the place of the binding of its name, else last. -/
def put (name : String) (b : Binding) : List (String × Binding) → List (String × Binding)
  | [] => [(name, b)]
  | (n, old) :: rest => if n == name then (n, b) :: rest else (n, old) :: put name b rest

/-- Bind a name to a plain element. -/
def allow (bs : Bindings) (name : String) : Bindings :=
  { bs with elements := put name .element bs.elements }

/-- Bind names to plain elements. -/
def allowAll (bs : Bindings) (names : List String) : Bindings := names.foldl allow bs

/-- Bind a name to a render function. -/
def bind (bs : Bindings) (name : String) (render : ElementRenderer) : Bindings :=
  { bs with elements := put name (.custom render) bs.elements }

/-- Hide the types of the catalog from JSX. -/
def hideCatalog (bs : Bindings) : Bindings := { bs with catalogInJsx := false }

/-- The binding of a name. -/
def binding? (bs : Bindings) (name : String) : Option Binding :=
  (bs.elements.find? (·.1 == name)).map (·.2)

/-- What a name stands for; a binding wins over a type of the catalog. -/
def resolve (bs : Bindings) (name : String) : Option Resolved :=
  match bs.binding? name with
  | some .element => some .element
  | some (.custom render) => some (.custom render)
  | none => if bs.catalogInJsx then (bs.catalog.get? name).map .component else none

def isBound (bs : Bindings) (name : String) : Bool := (bs.resolve name).isSome

/-- The bindings in a listing. -/
def listing (bs : Bindings) : String :=
  "Bindings \x7b catalog: " ++ bs.catalog.listing ++ ", elements: " ++
    Text.listInQuotes (bs.elements.map (·.1)) ++ ", catalog_in_jsx: " ++
    toString bs.catalogInJsx ++ " \x7d"

end Bindings
end AgentSurface.Render
