import AgentSurface.Proofs.Json.Fields
import AgentSurface.Proofs.Render.Places

/-!
# Render — the attributes of an element

Attributes are read once, from the first to the last, and go two ways: literals become properties,
and names are shown in slots.  On each way a later attribute takes the place of an earlier one with
the same name (`attributes_fst`, `LastName.exists_lookup`), but an attribute of the one kind leaves
what the other kind has put under its name.

* `exists_attributes_iff`: only a name that can not be shown stops the reading.
* `last_attribute_held`: what an element has under a name is what the last attribute of this name
  has, and beside it stands nothing, unless the attributes of this name are of both kinds.
* `overridden_literal_kept`: a name under which an element has two values.
-/

namespace AgentSurface

namespace Jsx

/-- The value of the last attribute with this name. -/
def Attribute.last? (attrs : List Attribute) (name : String) : Option Value :=
  Attribute.find? attrs.reverse name

/-- The literals among the attributes, in order, under their names. -/
def Attribute.literals (attrs : List Attribute) : Json.Fields :=
  attrs.filterMap fun a =>
    match a.value with
    | .literal v => some (a.name, v)
    | .ident _ => none

namespace Attribute

variable {a : Attribute} {attrs rest : List Attribute} {name : String} {v : Json}

/-- The last attribute of a name is asked of the rest first. -/
theorem last?_cons (a : Attribute) (rest : List Attribute) (name : String) :
    last? (a :: rest) name =
      (last? rest name).or (if a.name = name then some a.value else none) := by
  by_cases h : a.name = name <;> simp [last?, find?, List.find?_append, h]

/-- No attribute is found for a name exactly where none has it. -/
theorem last?_eq_none_iff : last? attrs name = none ↔ ∀ a ∈ attrs, a.name ≠ name := by
  simp [last?, find?]

@[simp] theorem literals_cons_literal : literals (⟨name, .literal v⟩ :: rest) =
    (name, v) :: literals rest := rfl

@[simp] theorem literals_cons_ident {path : String} :
    literals (⟨name, .ident path⟩ :: rest) = literals rest := rfl

/-- The literals are exactly the attributes with a literal value. -/
theorem mem_literals_iff : (name, v) ∈ literals attrs ↔ ⟨name, .literal v⟩ ∈ attrs := by
  induction attrs with
  | nil => simp [literals]
  | cons a rest ih =>
    obtain ⟨n, value⟩ := a
    cases value <;> simp [ih]

end Attribute
end Jsx

namespace Render

open Jsx (Attribute)

variable {bs : Bindings} {attrs : List Attribute} {props props' : Json.Fields}
  {slots slots' : List (String × View)} {x path : String} {v : Json}

/-! ### Properties -/

/-- Literals are merged into the properties, one after the other. -/
theorem attributes_fst (h : attributes bs props slots attrs = .ok (props', slots')) :
    props' = props.merge (Attribute.literals attrs) := by
  induction attrs generalizing props slots with
  | nil => cases h; rfl
  | cons a rest ih =>
    obtain ⟨n, value⟩ := a
    cases value with
    | literal v => exact ih h
    | ident name =>
      obtain ⟨u, -, h⟩ := Host.bind_eq_ok_iff.1 h
      exact ih h

/-- A name that no attribute has is not the key of a literal. -/
theorem get?_reverse_literals_of_last?_eq_none (h : Attribute.last? attrs x = none) :
    Json.Fields.get? (Attribute.literals attrs).reverse x = none := by
  rw [Json.Fields.get?, Option.map_eq_none_iff, List.find?_eq_none]
  rintro ⟨n, w⟩ hmem
  rw [List.mem_reverse, Attribute.mem_literals_iff] at hmem
  simpa using Attribute.last?_eq_none_iff.1 h _ hmem

theorem get?_reverse_literals (h : Attribute.last? attrs x = some (.literal v)) :
    Json.Fields.get? (Attribute.literals attrs).reverse x = some v := by
  induction attrs with
  | nil => cases h
  | cons a rest ih =>
    obtain ⟨n, value⟩ := a
    rw [Attribute.last?_cons, Option.or_eq_some_iff] at h
    rcases h with hrest | ⟨hrest, hhere⟩
    · have hlast := ih hrest
      cases value with
      | ident _ => exact hlast
      | literal w =>
        rw [Attribute.literals_cons_literal, List.reverse_cons, Json.Fields.get?_append, hlast,
          Option.some_or]
    · -- None of the attributes behind it has its name.
      split at hhere
      · next hname =>
        cases hhere
        rw [Attribute.literals_cons_literal, List.reverse_cons, Json.Fields.get?_append,
          get?_reverse_literals_of_last?_eq_none hrest, Option.none_or]
        simpa [Json.Fields.get?] using hname
      · cases hhere

/-- The properties have the names of the literals. -/
theorem mem_keys_attributes_iff (h : attributes bs [] slots attrs = .ok (props, slots')) :
    x ∈ props.keys ↔ ∃ v, ⟨x, .literal v⟩ ∈ attrs := by
  rw [attributes_fst h, Json.Fields.mem_keys_merge]
  simp only [Json.Fields.keys, List.map_nil, List.not_mem_nil, false_or, List.mem_map]
  constructor
  · rintro ⟨⟨n, v⟩, hmem, rfl⟩
    exact ⟨v, Attribute.mem_literals_iff.1 hmem⟩
  · rintro ⟨v, hmem⟩
    exact ⟨(x, v), Attribute.mem_literals_iff.2 hmem, rfl⟩

/-! ### Slots -/

/-- Slots have growing names, so no name stands twice. -/
def Ordered (slots : List (String × View)) : Prop := slots.Pairwise fun s t => s.1 < t.1

/-- A slot put in keeps the slots in order. -/
theorem Ordered.putSlot (h : Ordered slots) (name : String) (u : View) :
    Ordered (putSlot name u slots) := by
  induction slots with
  | nil => exact List.pairwise_singleton _ _
  | cons first rest ih =>
    obtain ⟨n, old⟩ := first
    obtain ⟨hfirst, hrest⟩ := List.pairwise_cons.1 h
    rw [Render.putSlot]
    split
    · exact List.pairwise_cons.2 ⟨hfirst, hrest⟩
    · next hne =>
      split
      · next hlt =>
        refine List.pairwise_cons.2 ⟨fun s hs => ?_, h⟩
        rcases List.mem_cons.1 hs with rfl | hs
        · exact hlt
        · exact String.lt_trans hlt (hfirst s hs)
      · next hge =>
        have hlt : n < name := Decidable.byContradiction fun hnot =>
          hne (String.le_antisymm (String.not_lt.1 hnot) (String.not_lt.1 hge))
        refine List.pairwise_cons.2 ⟨fun s hs => ?_, ih hrest⟩
        rcases mem_putSlot hs with rfl | hs
        · exact hlt
        · exact hfirst s hs

/-- The slots stay in order through all the attributes. -/
theorem Ordered.attributes (hslots : Ordered slots)
    (h : attributes bs props slots attrs = .ok (props', slots')) : Ordered slots' := by
  induction attrs generalizing props slots with
  | nil => cases h; exact hslots
  | cons a rest ih =>
    obtain ⟨n, value⟩ := a
    cases value with
    | literal v => exact ih hslots h
    | ident name =>
      obtain ⟨u, -, h⟩ := Host.bind_eq_ok_iff.1 h
      exact ih (hslots.putSlot n u) h

/-- Of the attributes that put something into a slot one is the last. -/
theorem exists_lastName (h : ⟨x, .ident path⟩ ∈ attrs) : ∃ name, LastName x name attrs := by
  induction attrs generalizing path with
  | nil => cases h
  | cons a rest ih =>
    by_cases hrest : ∃ other, ⟨x, .ident other⟩ ∈ rest
    · obtain ⟨other, hother⟩ := hrest
      obtain ⟨name, hname⟩ := ih hother
      exact ⟨name, .later hname⟩
    · rcases List.mem_cons.1 h with rfl | hmem
      · exact ⟨path, .here fun other hother => hrest ⟨other, hother⟩⟩
      · exact absurd ⟨path, hmem⟩ hrest

theorem lastName_of_last? (h : Attribute.last? attrs x = some (.ident path)) :
    LastName x path attrs := by
  induction attrs with
  | nil => cases h
  | cons a rest ih =>
    rw [Attribute.last?_cons, Option.or_eq_some_iff] at h
    rcases h with hrest | ⟨hrest, hhere⟩
    · exact .later (ih hrest)
    · split at hhere
      · next hname =>
        obtain ⟨n, value⟩ := a
        cases hhere
        cases hname
        exact .here fun other hmem => Attribute.last?_eq_none_iff.1 hrest _ hmem rfl
      · cases hhere

/-- The slots have the names of the attributes whose values are names. -/
theorem isSome_lookup_attributes_iff (h : attributes bs props [] attrs = .ok (props', slots)) :
    (slots.lookup x).isSome ↔ ∃ path, ⟨x, .ident path⟩ ∈ attrs := by
  by_cases hnames : ∃ path, ⟨x, .ident path⟩ ∈ attrs
  · obtain ⟨path, hmem⟩ := hnames
    obtain ⟨name, hname⟩ := exists_lastName hmem
    obtain ⟨u, hu, -⟩ := hname.exists_lookup h
    exact iff_of_true (hu ▸ rfl) ⟨path, hmem⟩
  · rw [lookup_attributes_of_not_mem (fun path hmem => hnames ⟨path, hmem⟩) h]
    exact iff_of_false (by simp) hnames

/-! ### Both -/

theorem attributes_cons_ident (bs : Bindings) (props : Json.Fields) (slots : List (String × View))
    (slot path : String) (rest : List Attribute) :
    attributes bs props slots (⟨slot, .ident path⟩ :: rest) =
      ident bs path >>= fun u => attributes bs props (putSlot slot u slots) rest := rfl

/-- **Only a name that can not be shown stops the reading of attributes.** -/
theorem exists_attributes_iff : (∃ result, attributes bs props slots attrs = .ok result) ↔
    ∀ slot path, ⟨slot, .ident path⟩ ∈ attrs → ∃ u, ident bs path = .ok u := by
  induction attrs generalizing props slots with
  | nil => simp [attributes, pure, Except.pure]
  | cons a rest ih =>
    obtain ⟨n, value⟩ := a
    cases value with
    | literal v =>
      rw [attributes, ih]
      simp
    | ident name =>
      simp only [attributes_cons_ident, Host.bind_eq_ok_iff]
      constructor
      · rintro ⟨result, u, hu, hrest⟩ slot path hmem
        rcases List.mem_cons.1 hmem with heq | hmem
        · cases heq
          exact ⟨u, hu⟩
        · exact ih.1 ⟨result, hrest⟩ slot path hmem
      · intro h
        obtain ⟨u, hu⟩ := h n name List.mem_cons_self
        obtain ⟨result, hrest⟩ :=
          ih.2 fun slot path hmem => h slot path (List.mem_cons_of_mem _ hmem)
        exact ⟨result, u, hu, hrest⟩

/-- What an element has under the names of its attributes: for each name what its last attribute
has, as a property or in a slot, and on the other way only what an attribute of the other kind put
there. -/
structure Holds (bs : Bindings) (attrs : List Attribute) (props : Json.Fields)
    (slots : List (String × View)) : Prop where
  nodup : props.keys.Nodup
  ordered : Ordered slots
  literal : ∀ x v, Attribute.last? attrs x = some (.literal v) → props.get? x = some v ∧
    ((slots.lookup x).isSome ↔ ∃ path, ⟨x, .ident path⟩ ∈ attrs)
  ident : ∀ x path, Attribute.last? attrs x = some (.ident path) →
    (∃ u, slots.lookup x = some u ∧ ident bs path = .ok u) ∧
    (x ∈ props.keys ↔ ∃ v, ⟨x, .literal v⟩ ∈ attrs)
  none : ∀ x, Attribute.last? attrs x = none → x ∉ props.keys ∧ slots.lookup x = none

/-- After all attributes, the props and slots hold what each name was last given. -/
theorem holds_attributes (h : attributes bs [] [] attrs = .ok (props, slots)) :
    Holds bs attrs props slots where
  nodup := by
    have hnil : (Json.Fields.keys []).Nodup := List.nodup_nil
    rw [attributes_fst h]
    exact Json.Fields.nodup_keys_merge hnil _
  ordered := Ordered.attributes List.Pairwise.nil h
  literal x v hlast := by
    refine ⟨?_, isSome_lookup_attributes_iff h⟩
    rw [attributes_fst h, Json.Fields.get?_merge, get?_reverse_literals hlast, Option.some_or]
  ident x path hlast :=
    ⟨(lastName_of_last? hlast).exists_lookup h, mem_keys_attributes_iff h⟩
  none x hlast := by
    have hno : ∀ value, ⟨x, value⟩ ∉ attrs :=
      fun value hmem => Attribute.last?_eq_none_iff.1 hlast _ hmem rfl
    refine ⟨fun hmem => ?_, lookup_attributes_of_not_mem (fun path => hno _) h⟩
    obtain ⟨v, hv⟩ := (mem_keys_attributes_iff h).1 hmem
    exact hno _ hv

/-- **An element has under each name what the last attribute of this name has.**

Take an element whose name stands for a plain element, with any attributes and children.  It is
shown if the names in its attributes and its children can be shown, and only then.  A name under
which it has a property or a slot is the name of an attribute.  If the last attribute of a name is a
literal, it is the property of this name; if it is a name, what this name is shown as stands in the
slot.  The other way has nothing under the name, unless an attribute of the other kind has it as
well. -/
theorem last_attribute_held {name : String} (hname : bs.resolve name = some .element)
    (attrs : List Attribute) (children : List Jsx.Node) :
    ((∃ shown, node bs (.element name attrs children) = .ok shown) ↔
      (∀ slot path, ⟨slot, .ident path⟩ ∈ attrs → ∃ u, ident bs path = .ok u) ∧
        ∃ views, nodes bs children = .ok views) ∧
    ∀ shown, node bs (.element name attrs children) = .ok shown →
      ∃ props slots views, shown = .element name props slots views ∧
        nodes bs children = .ok views ∧ Holds bs attrs props slots := by
  refine ⟨⟨?_, ?_⟩, ?_⟩
  · rintro ⟨shown, h⟩
    obtain ⟨props, slots, views, hattrs, hviews, -⟩ := element_of_node hname h
    exact ⟨exists_attributes_iff.1 ⟨_, hattrs⟩, views, hviews⟩
  · rintro ⟨hnames, views, hviews⟩
    obtain ⟨⟨props, slots⟩, hattrs⟩ := exists_attributes_iff.2 hnames
    refine ⟨.element name props slots views, ?_⟩
    rw [node, hname]
    dsimp only
    rw [hattrs, hviews]
    rfl
  · intro shown h
    obtain ⟨props, slots, views, hattrs, hviews, rfl⟩ := element_of_node hname h
    exact ⟨props, slots, views, rfl, hviews, holds_attributes hattrs⟩

/-- A literal that is given twice, and a name beside it. -/
theorem last_attribute_held_twice :
    let bs : Bindings := Bindings.allowAll { catalog := ⟨[]⟩ } ["A", "B"]
    let attrs : List Attribute :=
      [⟨"x", .literal (.string "1")⟩, ⟨"y", .ident "B"⟩, ⟨"x", .literal (.string "2")⟩]
    bs.resolve "A" = some .element ∧ ∃ (props : Json.Fields) (slots : List (String × View)),
      node bs (.element "A" attrs []) = .ok (.element "A" props slots []) ∧
      props.get? "x" = some (.string "2") ∧ slots.lookup "x" = none ∧
      (slots.lookup "y").isSome ∧ "y" ∉ props.keys := by
  intro bs attrs
  have hname : bs.resolve "A" = some .element := rfl
  have hb : ident bs "B" = .ok (.plainElement "B" []) := rfl
  obtain ⟨hshown, hparts⟩ := last_attribute_held hname attrs []
  obtain ⟨shown, hnode⟩ := hshown.2 ⟨fun slot path hmem => by simp_all [attrs], [], rfl⟩
  obtain ⟨props, slots, views, rfl, hviews, hholds⟩ := hparts shown hnode
  cases hviews
  obtain ⟨hx, hslot⟩ := hholds.literal "x" (.string "2") rfl
  obtain ⟨⟨u, hu, -⟩, hy⟩ := hholds.ident "y" "B" rfl
  refine ⟨hname, props, slots, hnode, hx, ?_, hu ▸ rfl, ?_⟩
  · exact Option.not_isSome_iff_eq_none.1 (mt hslot.1 (by simp [attrs]))
  · simp [hy, attrs]

/-- **An element can have two values under one name.**  A name that comes behind a literal does not
take its place, nor does a literal that comes behind a name. -/
theorem overridden_literal_kept :
    let bs : Bindings := Bindings.allowAll { catalog := ⟨[]⟩ } ["A", "B"]
    let attrs : List Attribute := [⟨"x", .literal (.string "1")⟩, ⟨"x", .ident "B"⟩]
    let both : View := .element "A" [("x", .string "1")] [("x", .plainElement "B" [])] []
    Attribute.last? attrs "x" = some (.ident "B") ∧
      node bs (.element "A" attrs []) = .ok both ∧
      Attribute.last? attrs.reverse "x" = some (.literal (.string "1")) ∧
      node bs (.element "A" attrs.reverse []) = .ok both :=
  ⟨rfl, rfl, rfl, rfl⟩

end Render
end AgentSurface
