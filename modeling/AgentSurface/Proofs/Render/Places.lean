import AgentSurface.Proofs.View.Parts
import AgentSurface.Render.Basic

/-!
# Render — places in a tree and in its view

A place is a way down from the root, through children and slots.  The places of a JSX tree that its
view has as well are those that lead through fragments and elements with allowed names; an attribute
leads to the name that is its value, if no later one puts another view into its slot.

* `Reaches.exists_view`: at a place of both stands what the node there is shown as.
* `blockContent_jsx`: a block of JSX is shown as one node.
-/

namespace AgentSurface

/-- The name of an element, or a name in the place of an element. -/
def Jsx.Node.name? : Jsx.Node → Option String
  | .element name _ _ => some name
  | .expression (.ident name) => some name
  | _ => none

end AgentSurface

namespace AgentSurface.Render

open Jsx (Node Attribute)

variable {bs : Bindings}

/-! ### Slots -/

/-- The last attribute of this name whose value is a name, and the name that it has. -/
inductive LastName (slot name : String) : List Attribute → Prop where
  | here {rest : List Attribute} (h : ∀ other, ⟨slot, .ident other⟩ ∉ rest) :
    LastName slot name (⟨slot, .ident name⟩ :: rest)
  | later {a : Attribute} {rest : List Attribute} (h : LastName slot name rest) :
    LastName slot name (a :: rest)

theorem lookup_cons_eq_ite (slot name : String) (v : View) (rest : List (String × View)) :
    ((name, v) :: rest).lookup slot = if slot = name then some v else rest.lookup slot := by
  by_cases h : slot = name
  · simp [h]
  · have hbeq : (slot == name) = false := by simpa using h
    simp [List.lookup_cons, hbeq, h]

/-- A slot that is filled shows what it was filled with, and the others what they showed. -/
theorem lookup_putSlot (name : String) (v : View) (slots : List (String × View)) (slot : String) :
    (putSlot name v slots).lookup slot = if slot = name then some v else slots.lookup slot := by
  induction slots with
  | nil => exact lookup_cons_eq_ite slot name v []
  | cons first rest ih =>
    obtain ⟨n, old⟩ := first
    rw [putSlot]
    split
    · next h =>
      rw [h, lookup_cons_eq_ite, lookup_cons_eq_ite]
      by_cases hslot : slot = n <;> simp [hslot]
    · next h =>
      split
      · exact lookup_cons_eq_ite slot name v _
      · rw [lookup_cons_eq_ite, ih, lookup_cons_eq_ite]
        by_cases hslot : slot = n
        · simp [hslot, Ne.symm h]
        · simp [hslot]

/-- A filled slot is the one put in or one that was there. -/
theorem mem_putSlot {name : String} {v : View} {slots : List (String × View)}
    {s : String × View} (h : s ∈ putSlot name v slots) : s = (name, v) ∨ s ∈ slots := by
  induction slots with
  | nil => exact .inl (List.mem_singleton.1 h)
  | cons first rest ih =>
    obtain ⟨n, old⟩ := first
    rw [putSlot] at h
    split at h
    · next hname =>
      rw [hname]
      exact (List.mem_cons.1 h).imp_right (List.mem_cons_of_mem _)
    · split at h
      · exact List.mem_cons.1 h
      · rcases List.mem_cons.1 h with rfl | h
        · exact .inr List.mem_cons_self
        · exact (ih h).imp_right (List.mem_cons_of_mem _)

/-- Attributes that put nothing into a slot leave it. -/
theorem lookup_attributes_of_not_mem {slot : String} {attrs : List Attribute}
    (h : ∀ other, ⟨slot, .ident other⟩ ∉ attrs) {props props' : Json.Fields}
    {slots slots' : List (String × View)}
    (hattrs : attributes bs props slots attrs = .ok (props', slots')) :
    slots'.lookup slot = slots.lookup slot := by
  induction attrs generalizing props slots with
  | nil => cases hattrs; rfl
  | cons a rest ih =>
    have hrest : ∀ other, ⟨slot, .ident other⟩ ∉ rest :=
      fun other hmem => h other (List.mem_cons_of_mem _ hmem)
    obtain ⟨n, value⟩ := a
    cases value with
    | literal v => exact ih hrest hattrs
    | ident name =>
      obtain ⟨v, -, hattrs⟩ := Host.bind_eq_ok_iff.1 hattrs
      have hslot : slot ≠ n := fun heq => h name (heq ▸ List.mem_cons_self)
      rw [ih hrest hattrs, lookup_putSlot, if_neg hslot]

/-- In a slot stands what the last name for it is shown as. -/
theorem LastName.exists_lookup {slot name : String} {attrs : List Attribute}
    (h : LastName slot name attrs) {props props' : Json.Fields}
    {slots slots' : List (String × View)}
    (hattrs : attributes bs props slots attrs = .ok (props', slots')) :
    ∃ u, slots'.lookup slot = some u ∧ ident bs name = .ok u := by
  induction h generalizing props slots with
  | here h =>
    obtain ⟨u, hu, hattrs⟩ := Host.bind_eq_ok_iff.1 hattrs
    refine ⟨u, ?_, hu⟩
    rw [lookup_attributes_of_not_mem h hattrs, lookup_putSlot, if_pos rfl]
  | @later a rest _ ih =>
    obtain ⟨n, value⟩ := a
    cases value with
    | literal v => exact ih hattrs
    | ident other =>
      obtain ⟨v, -, hattrs⟩ := Host.bind_eq_ok_iff.1 hattrs
      exact ih hattrs

/-! ### Children -/

/-- Each node of a list is shown at its own place among the views. -/
theorem exists_getElem?_nodes {list : List Node} {views : List View}
    (h : nodes bs list = .ok views) {i : Nat} {n : Node} (hi : list[i]? = some n) :
    ∃ u, views[i]? = some u ∧ node bs n = .ok u := by
  induction list generalizing views i with
  | nil => cases hi
  | cons first rest ih =>
    obtain ⟨v, hv, h⟩ := Host.bind_eq_ok_iff.1 h
    obtain ⟨later, hlater, h⟩ := Host.bind_eq_ok_iff.1 h
    cases h
    cases i with
    | zero => cases hi; exact ⟨v, rfl, hv⟩
    | succ i => exact ih hlater hi

/-- An element with an allowed name is shown as it is, with its parts shown. -/
theorem element_of_node {name : String} {attrs : List Attribute} {children : List Node} {v : View}
    (hname : bs.resolve name = some .element) (h : node bs (.element name attrs children) = .ok v) :
    ∃ props slots views, attributes bs [] [] attrs = .ok (props, slots) ∧
      nodes bs children = .ok views ∧ v = .element name props slots views := by
  rw [node, hname] at h
  obtain ⟨⟨props, slots⟩, hattrs, h⟩ := Host.bind_eq_ok_iff.1 h
  obtain ⟨views, hviews, h⟩ := Host.bind_eq_ok_iff.1 h
  cases h
  exact ⟨props, slots, views, hattrs, hviews, rfl⟩

/-- A fragment is shown as the fragment of its children's views. -/
theorem fragment_of_node {children : List Node} {v : View}
    (h : node bs (.fragment children) = .ok v) :
    ∃ views, nodes bs children = .ok views ∧ v = .fragment views := by
  rw [node] at h
  obtain ⟨views, hviews, h⟩ := Host.bind_eq_ok_iff.1 h
  cases h
  exact ⟨views, hviews, rfl⟩

/-! ### Places -/

/-- A place of a tree that leads through fragments and elements with these names, and the node
there.  A name in an attribute stands for an expression. -/
inductive Reaches (names : List String) : Node → List View.Step → Node → Prop where
  | here (n : Node) : Reaches names n [] n
  | fragment {children : List Node} {i : Nat} {child n : Node} {place : List View.Step}
    (hchild : children[i]? = some child) (h : Reaches names child place n) :
    Reaches names (.fragment children) (.child i :: place) n
  | child {name : String} {attrs : List Attribute} {children : List Node} {i : Nat}
    {child n : Node} {place : List View.Step} (hname : name ∈ names)
    (hchild : children[i]? = some child) (h : Reaches names child place n) :
    Reaches names (.element name attrs children) (.child i :: place) n
  | slot {name slot inner : String} {attrs : List Attribute} {children : List Node}
    (hname : name ∈ names) (h : LastName slot inner attrs) :
    Reaches names (.element name attrs children) [.slot slot] (.expression (.ident inner))

/-- **Places of a tree are places of its view**, and at each stands what the node there is shown
as. -/
theorem Reaches.exists_view {names : List String}
    (hnames : ∀ name ∈ names, bs.resolve name = some .element) {n m : Node}
    {place : List View.Step} (h : Reaches names n place m) {v : View} (hv : node bs n = .ok v) :
    ∃ u, v.at? place = some u ∧ node bs m = .ok u := by
  induction h generalizing v with
  | here n => exact ⟨v, rfl, hv⟩
  | @fragment children i child n place hchild _ ih =>
    obtain ⟨views, hviews, rfl⟩ := fragment_of_node hv
    obtain ⟨u, hu, hshown⟩ := exists_getElem?_nodes hviews hchild
    obtain ⟨w, hw, hnode⟩ := ih hshown
    exact ⟨w, by simp [View.at?, View.below?, hu, hw], hnode⟩
  | @child name attrs children i child n place hname hchild _ ih =>
    obtain ⟨props, slots, views, -, hviews, rfl⟩ := element_of_node (hnames name hname) hv
    obtain ⟨u, hu, hshown⟩ := exists_getElem?_nodes hviews hchild
    obtain ⟨w, hw, hnode⟩ := ih hshown
    exact ⟨w, by simp [View.at?, View.below?, hu, hw], hnode⟩
  | @slot name slot inner attrs children hname h =>
    obtain ⟨props, slots, views, hattrs, -, rfl⟩ := element_of_node (hnames name hname) hv
    obtain ⟨u, hu, hshown⟩ := h.exists_lookup hattrs
    exact ⟨u, by simp [View.at?, View.below?, hu], hshown⟩

/-! ### Blocks -/

/-- The nodes of a block as one: one node stands alone, several or none in a fragment. -/
def root (tree : List Node) : Node :=
  match tree with
  | [n] => n
  | tree => .fragment tree

/-- A block of JSX is shown as one node. -/
theorem blockContent_jsx (bs : Bindings) (source : String) (tree : List Node) :
    blockContent bs (.jsx source tree) = node bs (root tree) := by
  match tree with
  | [] => rfl
  | [n] =>
    rw [blockContent, root, nodes, nodes]
    cases node bs n <;> rfl
  | first :: second :: rest =>
    have hroot : root (first :: second :: rest) = .fragment (first :: second :: rest) := rfl
    rw [blockContent, hroot, node, nodes, nodes]
    cases node bs first <;> cases node bs second <;> cases nodes bs rest <;> rfl

end AgentSurface.Render
