import AgentSurface.View.Basic

/-!
# View — places and parts

A place is a way down a view, through slots and children, and `View.at?` is the view there.
`View.All` says of a view that all of its parts, at any depth, are of some kind.
-/

namespace AgentSurface.View

/-! ### Places -/

/-- A step down a tree. -/
inductive Step where
  | child (i : Nat)
  | slot (name : String)
deriving DecidableEq, Repr

/-- The view below a view. -/
def below? : View → Step → Option View
  | .element _ _ _ children, .child i => children[i]?
  | .element _ _ slots _, .slot name => slots.lookup name
  | .fragment children, .child i => children[i]?
  | _, _ => none

/-- The view at a place. -/
def at? (v : View) : List Step → Option View
  | [] => some v
  | step :: place => (v.below? step).bind fun u => u.at? place

/-! ### Parts -/

/-- The views that stand directly in a view: those in its slots, and its children. -/
def inner : View → List View
  | .element _ _ slots children => slots.map (·.2) ++ children
  | .fragment children => children
  | _ => []

/-- A view is part of itself, and parts of what stands in a view are parts of it. -/
inductive Within (w : View) : View → Prop where
  | here : Within w w
  | inside {u v : View} (hu : u ∈ v.inner) (h : Within w u) : Within w v

/-- All parts of the view are of this kind. -/
def All (P : View → Prop) (v : View) : Prop := ∀ w, w.Within v → P w

variable {P : View → Prop} {v : View}

theorem all_of_inner (h : P v) (hinner : ∀ u ∈ v.inner, u.All P) : v.All P := by
  rintro w (_ | ⟨hu, hw⟩)
  · exact h
  · exact hinner _ hu w hw

theorem all_of_leaf (hv : v.inner = []) (h : P v) : v.All P :=
  all_of_inner h (hv ▸ List.forall_mem_nil _)

end AgentSurface.View
