import AgentSurface.Proofs.Render.Grants
import AgentSurface.Proofs.Render.Isolation

/-!
# Render — nothing is shown that was not granted

With bindings that run no code of the host but validators, the views of blocks are made of elements
whose names were allowed, and of components that passed the check of their type (`Permitted`).  A
name that was not granted leaves a fallback in its place.

* `node_permitted`, `validation_permitted`: the views of JSX trees and of surface updates.
* `shows_what_is_granted`: all of it, for every list of blocks.
-/

namespace AgentSurface.Render

open Catalog (RenderError)

variable {catalog : Catalog} {grants : List Grant} {b : Stream.Block}

/-! ### What may be shown -/

/-- The view, without regard to its parts, may be shown for the block: an element has an allowed
name, and a component passed the check of its type, which is not hidden from the block. -/
def Permitted (catalog : Catalog) (grants : List Grant) (b : Stream.Block) : View → Prop
  | .element name _ _ _ => name ∈ allowed grants
  | .component _ typeName data options => catalog.Takes typeName data options ∧
      (.hideCatalog ∈ grants → ∀ source tree, b ≠ .jsx source tree)
  | _ => True

/-- A component that passed is shown as such, since no render function shows it. -/
theorem component_permitted (hrender : ∀ entry ∈ catalog.entries, entry.render = none)
    {props : Catalog.ComponentProps} {known : Bool}
    (h : known = true → catalog.Takes props.typeName props.data props.options ∧
      (.hideCatalog ∈ grants → ∀ source tree, b ≠ .jsx source tree)) (raw : Json) :
    (component catalog props known raw).All (Permitted catalog grants b) := by
  unfold component
  split
  · next entry hentry =>
    split
    · next hknown =>
      rw [hrender entry (List.mem_of_find?_eq_some hentry)]
      exact View.all_of_leaf rfl (h hknown)
    · exact View.all_of_leaf rfl trivial
  · exact View.all_of_leaf rfl trivial

/-! ### Surface updates -/

/-- The view of a validated message has only permitted parts. -/
theorem validation_permitted (hrender : ∀ entry ∈ catalog.entries, entry.render = none)
    {message : Json} {v : Update.Validation} (h : Update.validate catalog message = .ok v)
    (hb : ∀ source tree, b ≠ .jsx source tree) :
    (validation catalog message v).All (Permitted catalog grants b) := by
  refine View.all_of_inner trivial fun u hu => ?_
  obtain ⟨placed, hplaced, rfl⟩ := List.mem_map.1 hu
  -- Sorting changes the order of the views and nothing else.
  rw [List.mem_mergeSort] at hplaced
  rcases List.mem_append.1 hplaced with hvalid | hinvalid
  · obtain ⟨e, he, rfl⟩ := List.mem_map.1 hvalid
    obtain ⟨raw, hpasses⟩ := Update.exists_passes h he
    obtain ⟨payload, -, -, hholds⟩ := hpasses.payload
    refine component_permitted hrender (fun hknown => ⟨?_, fun _ => hb⟩) _
    -- An entry that is known passed under the type that the catalog has for it.
    unfold Update.Holds at hholds
    split at hholds
    · exact absurd (hholds.2.symm.trans hknown) Bool.false_ne_true
    · next entry hentry => exact ⟨entry, hentry, Catalog.Entry.takes_of_checkPayload hholds.1⟩
  · obtain ⟨e, -, rfl⟩ := List.mem_map.1 hinvalid
    exact View.all_of_leaf rfl trivial

/-! ### JSX trees -/

/-- A type of the catalog that is used as an element is checked as in an update. -/
theorem catalogElement_permitted (hrender : ∀ entry ∈ catalog.entries, entry.render = none)
    {name : String} {entry : Catalog.Entry} (hentry : catalog.get? name = some entry)
    (hgrants : .hideCatalog ∉ grants) {props : Json.Fields} {v : View}
    (h : catalogElement catalog entry props = .ok v) : v.All (Permitted catalog grants b) := by
  unfold catalogElement at h
  obtain ⟨result, hresult, h⟩ := Host.bind_eq_ok_iff.1 h
  cases result with
  | error errors =>
    cases h
    exact View.all_of_leaf rfl trivial
  | ok options =>
    cases h
    have htype : entry.typeName = name := by simpa using List.find?_some hentry
    exact component_permitted hrender (fun _ => ⟨⟨entry, by rw [htype]; exact hentry,
      Catalog.Entry.takes_of_checkPayload hresult⟩, fun hhidden => absurd hhidden hgrants⟩) _

/-- The view of a resolved name has only permitted parts, if what it is given has. -/
theorem resolved_permitted (hrender : ∀ entry ∈ catalog.entries, entry.render = none)
    {target : Resolved} {props : ElementProps}
    (htarget : (Bindings.granted catalog grants).resolve props.name = some target)
    (hslots : ∀ s ∈ props.slots, s.2.All (Permitted catalog grants b))
    (hchildren : ∀ u ∈ props.children, u.All (Permitted catalog grants b)) {v : View}
    (h : resolved (.granted catalog grants) target props = .ok v) :
    v.All (Permitted catalog grants b) := by
  cases target with
  | element =>
    cases h
    exact View.all_of_inner (resolve_eq_element_iff.1 htarget)
      (List.forall_mem_append.2 ⟨List.forall_mem_map.2 hslots, hchildren⟩)
  | custom render => exact absurd htarget resolve_ne_custom
  | component entry =>
    obtain ⟨hentry, hgrants⟩ := of_resolve_eq_component htarget
    rw [resolved, catalog_granted] at h
    exact catalogElement_permitted hrender hentry hgrants h

theorem ident_permitted (hrender : ∀ entry ∈ catalog.entries, entry.render = none)
    {name : String} {v : View} (h : ident (.granted catalog grants) name = .ok v) :
    v.All (Permitted catalog grants b) := by
  unfold ident at h
  split at h
  · cases h
    exact View.all_of_leaf rfl trivial
  · next target htarget =>
    exact resolved_permitted hrender htarget (List.forall_mem_nil _) (List.forall_mem_nil _) h

/-- The attributes fill slots with permitted parts only. -/
theorem attributes_permitted (hrender : ∀ entry ∈ catalog.entries, entry.render = none)
    {attrs : List Jsx.Attribute} {props props' : Json.Fields} {slots slots' : List (String × View)}
    (hslots : ∀ s ∈ slots, s.2.All (Permitted catalog grants b))
    (h : attributes (.granted catalog grants) props slots attrs = .ok (props', slots')) :
    ∀ s ∈ slots', s.2.All (Permitted catalog grants b) := by
  induction attrs generalizing props slots with
  | nil => cases h; exact hslots
  | cons a rest ih =>
    obtain ⟨n, value⟩ := a
    cases value with
    | literal v => exact ih hslots h
    | ident name =>
      obtain ⟨v, hv, h⟩ := Host.bind_eq_ok_iff.1 h
      refine ih (fun s hs => ?_) h
      rcases mem_putSlot hs with rfl | hs
      · exact ident_permitted hrender hv
      · exact hslots s hs

mutual

/-- **A JSX tree is shown with what was granted.** -/
theorem node_permitted (hrender : ∀ entry ∈ catalog.entries, entry.render = none) :
    ∀ (n : Jsx.Node) (v : View), node (.granted catalog grants) n = .ok v →
      v.All (Permitted catalog grants b)
  | .text t, v, h => by
    rw [node] at h
    cases h
    exact View.all_of_leaf rfl trivial
  | .fragment children, v, h => by
    obtain ⟨views, hviews, rfl⟩ := fragment_of_node h
    exact View.all_of_inner trivial (nodes_permitted hrender children views hviews)
  | .expression (.ident name), v, h => by
    rw [node] at h
    exact ident_permitted hrender h
  | .expression (.literal w), v, h => by
    rw [node] at h
    cases h
    cases w with
    | null => exact View.all_of_inner trivial (List.forall_mem_nil _)
    | _ => exact View.all_of_leaf rfl trivial
  | .element name attrs children, v, h => by
    rw [node] at h
    split at h
    · -- What is inside an element without a binding is not shown.
      cases h
      exact View.all_of_leaf rfl trivial
    · next target htarget =>
      obtain ⟨⟨props, slots⟩, hattrs, h⟩ := Host.bind_eq_ok_iff.1 h
      obtain ⟨views, hviews, h⟩ := Host.bind_eq_ok_iff.1 h
      exact resolved_permitted hrender htarget
        (attributes_permitted hrender (List.forall_mem_nil _) hattrs)
        (nodes_permitted hrender children views hviews) h

/-- The views of a list of nodes have only permitted parts. -/
theorem nodes_permitted (hrender : ∀ entry ∈ catalog.entries, entry.render = none) :
    ∀ (list : List Jsx.Node) (views : List View),
      nodes (.granted catalog grants) list = .ok views →
        ∀ u ∈ views, u.All (Permitted catalog grants b)
  | [], views, h => by
    rw [nodes] at h
    cases h
    exact List.forall_mem_nil _
  | n :: rest, views, h => by
    rw [nodes] at h
    obtain ⟨v, hv, h⟩ := Host.bind_eq_ok_iff.1 h
    obtain ⟨later, hlater, h⟩ := Host.bind_eq_ok_iff.1 h
    cases h
    exact List.forall_mem_cons.2
      ⟨node_permitted hrender n v hv, nodes_permitted hrender rest later hlater⟩

end

/-! ### Names that were not granted -/

/-- A name that was not granted leaves a fallback. -/
theorem node_of_unbound {n : Jsx.Node} {name : String} (h : n.name? = some name)
    (hname : Unbound catalog grants name) :
    node (.granted catalog grants) n = .ok (.fallback (.unknownComponent name)) := by
  have hresolve := resolve_eq_none_iff.2 hname
  match n with
  | .element _ _ _ =>
    cases h
    rw [node, hresolve]
    rfl
  | .expression (.ident _) =>
    cases h
    rw [node, ident, hresolve]
    rfl

/-- A block of JSX has a fallback in the place of each name that was not granted, unless a validator
stops it. -/
theorem block_of_unbound (index : Nat) (source : String) (tree : List Jsx.Node) :
    (∀ place n name, Reaches (allowed grants) (root tree) place n → n.name? = some name →
      Unbound catalog grants name →
      (block (.granted catalog grants) index (.jsx source tree)).at? place =
        some (.fallback (.unknownComponent name))) ∨
    ∃ panic, catalog.Panics panic ∧ block (.granted catalog grants) index (.jsx source tree) =
      .renderError (scope index (.jsx source tree))
        (RenderError.panicked panic.message).message := by
  rw [block, blockContent_jsx]
  cases hroot : node (.granted catalog grants) (root tree) with
  | error panic =>
    have hpanics := node_panics _ _ hroot
    rw [catalog_granted] at hpanics
    exact .inr ⟨panic, hpanics, rfl⟩
  | ok v =>
    refine .inl fun place n name hplace hn hname => ?_
    obtain ⟨u, hu, hshown⟩ :=
      hplace.exists_view (fun _ hallowed => resolve_eq_element_iff.2 hallowed) hroot
    cases (node_of_unbound hn hname).symm.trans hshown
    exact hu

/-! ### Blocks -/

/-- The view of a block has only permitted parts. -/
theorem block_permitted (hrender : ∀ entry ∈ catalog.entries, entry.render = none) (index : Nat)
    (b : Stream.Block) :
    (block (.granted catalog grants) index b).All (Permitted catalog grants b) := by
  rw [block]
  cases hcontent : blockContent (.granted catalog grants) b with
  | error panic => exact View.all_of_leaf rfl trivial
  | ok v =>
    cases b with
    | text t =>
      cases hcontent
      exact View.all_of_leaf rfl trivial
    | jsx source tree =>
      rw [blockContent_jsx] at hcontent
      exact node_permitted hrender _ v hcontent
    | update message raw =>
      rw [blockContent, catalog_granted] at hcontent
      obtain ⟨found, hfound, h⟩ := Host.bind_eq_ok_iff.1 hcontent
      cases h
      exact validation_permitted hrender hfound fun _ _ => Stream.Block.noConfusion
    | fault kind raw reason =>
      cases hcontent
      exact View.all_of_leaf rfl trivial

/-- **Nothing is shown that was not granted.**  Take a catalog without render functions, and
bindings with some grants.  Every block has a view, and all parts of it are permitted for the block.
A name that is neither allowed nor an exposed type is shown as a fallback wherever it is met; and in
the view of a block of JSX the fallback stands in the place of the name, unless the whole block was
given up when a validator stopped in a panic. -/
theorem shows_what_is_granted (hrender : ∀ entry ∈ catalog.entries, entry.render = none)
    (grants : List Grant) (list : List Stream.Block) :
    (blocks (.granted catalog grants) list).length = list.length ∧
    (∀ (n : Jsx.Node) (name : String), n.name? = some name → Unbound catalog grants name →
      node (.granted catalog grants) n = .ok (.fallback (.unknownComponent name))) ∧
    ∀ i b, list[i]? = some b → ∃ v : View, (blocks (.granted catalog grants) list)[i]? = some v ∧
      v.All (Permitted catalog grants b) ∧
      ∀ source tree, b = .jsx source tree →
        (∀ place n name, Reaches (allowed grants) (root tree) place n → n.name? = some name →
          Unbound catalog grants name →
          v.at? place = some (.fallback (.unknownComponent name))) ∨
        ∃ panic, catalog.Panics panic ∧
          v = .renderError (scope i b) (RenderError.panicked panic.message).message := by
  refine ⟨length_blocksFrom _ 0 list, fun n name => node_of_unbound, fun i b hb => ?_⟩
  refine ⟨block (.granted catalog grants) i b, ?_, block_permitted hrender i b, ?_⟩
  · rw [blocks, getElem?_blocksFrom, hb, Nat.zero_add]
    rfl
  · rintro source tree rfl
    exact block_of_unbound i source tree

/-- Two names that were not granted, one of them in a slot, and a type of the catalog whose data are
refused. -/
theorem shows_what_is_granted_script :
    let catalog : Catalog := ⟨[
      { typeName := "Card", purpose := ""
        data := .ofFunction fun _ _ => [⟨.schema, .data, [], "no"⟩] }]⟩
    let tree : List Jsx.Node := [.element "Box" [⟨"icon", .ident "Evil"⟩]
      [.element "script" [] [], .element "Card" [] []]]
    (∀ entry ∈ catalog.entries, entry.render = none) ∧
      ∃ v : View, (blocks (.granted catalog [.allow "Box"]) [.jsx "" tree])[0]? = some v ∧
        v.All (Permitted catalog [.allow "Box"] (.jsx "" tree)) ∧
        v.at? [.slot "icon"] = some (.fallback (.unknownComponent "Evil")) ∧
        v.at? [.child 0] = some (.fallback (.unknownComponent "script")) := by
  intro catalog tree
  have hrender : ∀ entry ∈ catalog.entries, entry.render = none :=
    List.forall_mem_singleton.2 rfl
  have hunbound : ∀ name ∈ ["Evil", "script"], Unbound catalog [.allow "Box"] name := by
    simp [Unbound, Exposed, allowed, Grant.names, catalog, Catalog.has, Catalog.get?]
  have hbox : "Box" ∈ allowed [.allow "Box"] := List.mem_singleton_self _
  obtain ⟨-, -, hblocks⟩ := shows_what_is_granted hrender [.allow "Box"] [.jsx "" tree]
  obtain ⟨v, hv, hall, hjsx⟩ := hblocks 0 _ rfl
  refine ⟨hrender, v, hv, hall, ?_⟩
  rcases hjsx "" tree rfl with hplaces | ⟨panic, ⟨entry, hentry, hpanic⟩, -⟩
  · exact ⟨hplaces _ _ _ (.slot hbox (.here (by simp))) rfl (hunbound _ (by simp)),
      hplaces _ _ _ (.child hbox rfl (.here _)) rfl (hunbound _ (by simp))⟩
  · obtain rfl := List.mem_singleton.1 hentry
    rcases hpanic with ⟨data, h⟩ | ⟨validator, options, h, -⟩ <;> cases h

end AgentSurface.Render
