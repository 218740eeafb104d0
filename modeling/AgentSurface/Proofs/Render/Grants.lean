import AgentSurface.Render.Bindings

/-!
# Render — names that are granted

Bindings that run no code of the host are built from a catalog step by step: a step allows names as
plain elements, or hides the types of the catalog.  The order of the steps makes no difference to
what a name stands for (`resolve_granted`).

* `resolve_eq_element_iff`, `resolve_eq_none_iff`: which names stand for an element, and which for
  nothing.
-/

namespace AgentSurface.Render

/-- A step in building bindings. -/
inductive Grant where
  | allow (name : String)
  | allowAll (names : List String)
  | hideCatalog
deriving DecidableEq

variable {bs : Bindings} {catalog : Catalog} {grants : List Grant} {name : String}

/-- The names a grant allows. -/
def Grant.names : Grant → List String
  | .allow name => [name]
  | .allowAll names => names
  | .hideCatalog => []

/-- The bindings after the grant. -/
def Grant.on (bs : Bindings) : Grant → Bindings
  | .allow name => bs.allow name
  | .allowAll names => bs.allowAll names
  | .hideCatalog => bs.hideCatalog

/-- The names that some grants allow. -/
def allowed (grants : List Grant) : List String := grants.flatMap Grant.names

/-- Bindings of a catalog, with grants made one after the other. -/
def Bindings.granted (catalog : Catalog) (grants : List Grant) : Bindings :=
  grants.foldl Grant.on { catalog }

/-! ### Names that are bound -/

/-- A binding put in stands under its own name and leaves the others alone. -/
theorem find?_put (name : String) (b : Binding) (list : List (String × Binding)) (other : String) :
    (((Bindings.put name b list).find? (·.1 == other)).map (·.2)) =
      if other = name then some b else (list.find? (·.1 == other)).map (·.2) := by
  induction list with
  | nil =>
    by_cases h : name = other
    · simp [Bindings.put, h]
    · simp [Bindings.put, h, Ne.symm h]
  | cons first rest ih =>
    obtain ⟨n, old⟩ := first
    by_cases hn : n = name
    · by_cases h : name = other
      · simp [Bindings.put, hn, h]
      · simp [Bindings.put, hn, h, Ne.symm h]
    · by_cases h : n = other
      · subst h
        simp [Bindings.put, hn]
      · simpa [Bindings.put, hn, h] using ih

/-- Allowing a name binds it to an element and leaves the others alone. -/
theorem binding?_allow (bs : Bindings) (name other : String) :
    (bs.allow name).binding? other = if other = name then some .element else bs.binding? other :=
  find?_put name .element bs.elements other

/-- Allowing several names binds each of them and leaves the others alone. -/
theorem binding?_allowAll (bs : Bindings) (names : List String) (other : String) :
    (bs.allowAll names).binding? other =
      if other ∈ names then some .element else bs.binding? other := by
  induction names generalizing bs with
  | nil => rfl
  | cons name rest ih =>
    rw [Bindings.allowAll, List.foldl_cons, ← Bindings.allowAll, ih, binding?_allow]
    by_cases hrest : other ∈ rest <;> by_cases hname : other = name <;> simp [hrest, hname]

/-- Allowing names does not touch the catalog. -/
theorem catalog_allowAll (bs : Bindings) (names : List String) :
    (bs.allowAll names).catalog = bs.catalog ∧
      (bs.allowAll names).catalogInJsx = bs.catalogInJsx := by
  induction names generalizing bs with
  | nil => exact ⟨rfl, rfl⟩
  | cons name rest ih => exact ih (bs.allow name)

/-- The bindings are those of the catalog with these grants. -/
structure Bindings.Has (bs : Bindings) (catalog : Catalog) (grants : List Grant) : Prop where
  catalog : bs.catalog = catalog
  binding : ∀ name, bs.binding? name = if name ∈ allowed grants then some .element else none
  hidden : bs.catalogInJsx = false ↔ .hideCatalog ∈ grants

/-- Bindings made of grants are still so after one more. -/
theorem Bindings.Has.on (h : bs.Has catalog grants) (g : Grant) :
    (g.on bs).Has catalog (g :: grants) := by
  cases g with
  | allow name =>
    refine ⟨h.catalog, fun other => ?_, h.hidden.trans (by simp)⟩
    rw [Grant.on, binding?_allow, h.binding]
    by_cases hname : other = name <;> simp [allowed, Grant.names, hname]
  | allowAll names =>
    obtain ⟨hcatalog, hjsx⟩ := catalog_allowAll bs names
    refine ⟨hcatalog.trans h.catalog, fun other => ?_, ?_⟩
    · rw [Grant.on, binding?_allowAll, h.binding]
      by_cases hnames : other ∈ names <;> simp [allowed, Grant.names, hnames]
    · rw [Grant.on, hjsx, h.hidden]
      simp
  | hideCatalog =>
    refine ⟨h.catalog, fun other => ?_, ?_⟩
    · exact (h.binding other).trans (by simp [allowed, Grant.names])
    · exact iff_of_true rfl List.mem_cons_self

theorem has_granted (catalog : Catalog) (grants : List Grant) :
    (Bindings.granted catalog grants).Has catalog grants.reverse := by
  rw [Bindings.granted, ← List.foldr_reverse]
  induction grants.reverse with
  | nil => exact ⟨rfl, fun _ => rfl, by simp⟩
  | cons g rest ih => exact ih.on g

theorem catalog_granted : (Bindings.granted catalog grants).catalog = catalog :=
  (has_granted catalog grants).catalog

theorem mem_allowed_reverse : name ∈ allowed grants.reverse ↔ name ∈ allowed grants := by
  simp [allowed]

/-- What a name stands for. -/
theorem resolve_granted (catalog : Catalog) (grants : List Grant) (name : String) :
    (Bindings.granted catalog grants).resolve name =
      if name ∈ allowed grants then some .element
      else if .hideCatalog ∈ grants then none
      else (catalog.get? name).map .component := by
  have h := has_granted catalog grants
  have hhidden := h.hidden.trans List.mem_reverse
  rw [Bindings.resolve, h.binding, h.catalog]
  simp only [mem_allowed_reverse]
  by_cases hname : name ∈ allowed grants
  · simp [hname]
  · by_cases hgrant : Grant.hideCatalog ∈ grants
    · simp [hname, hgrant, hhidden.2 hgrant]
    · simp [hname, hgrant, mt hhidden.1 hgrant]

theorem resolve_eq_element_iff :
    (Bindings.granted catalog grants).resolve name = some .element ↔ name ∈ allowed grants := by
  rw [resolve_granted]
  by_cases hname : name ∈ allowed grants <;> by_cases hgrant : Grant.hideCatalog ∈ grants <;>
    simp [hname, hgrant]

theorem resolve_ne_custom {render : ElementRenderer} :
    (Bindings.granted catalog grants).resolve name ≠ some (.custom render) := by
  rw [resolve_granted]
  by_cases hname : name ∈ allowed grants <;> by_cases hgrant : Grant.hideCatalog ∈ grants <;>
    simp [hname, hgrant]

/-- A type of the catalog is used only if types are not hidden. -/
theorem of_resolve_eq_component {entry : Catalog.Entry}
    (h : (Bindings.granted catalog grants).resolve name = some (.component entry)) :
    catalog.get? name = some entry ∧ .hideCatalog ∉ grants := by
  rw [resolve_granted] at h
  by_cases hname : name ∈ allowed grants <;> by_cases hgrant : Grant.hideCatalog ∈ grants <;>
    simp [hname, hgrant] at h
  exact ⟨h, hgrant⟩

/-- The name is a type of the catalog, and types are not hidden. -/
def Exposed (catalog : Catalog) (grants : List Grant) (name : String) : Prop :=
  .hideCatalog ∉ grants ∧ catalog.has name = true

/-- The name is neither allowed nor an exposed type. -/
def Unbound (catalog : Catalog) (grants : List Grant) (name : String) : Prop :=
  name ∉ allowed grants ∧ ¬ Exposed catalog grants name

theorem resolve_eq_none_iff :
    (Bindings.granted catalog grants).resolve name = none ↔ Unbound catalog grants name := by
  rw [resolve_granted, Unbound, Exposed, Catalog.has]
  by_cases hname : name ∈ allowed grants <;> by_cases hgrant : Grant.hideCatalog ∈ grants <;>
    simp [hname, hgrant]

end AgentSurface.Render
