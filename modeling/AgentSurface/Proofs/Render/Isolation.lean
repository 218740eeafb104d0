import AgentSurface.Proofs.Catalog.Checking
import AgentSurface.Proofs.Render.Agreement
import AgentSurface.Proofs.Render.Places

/-!
# Render — failures stay in their places

Render functions and bound elements run in isolation, so an error or a panic in one of them costs
the place where it was called and nothing else.  A validator runs outside; its panic costs the block
whose payload it was to check (`blockContent_panics`).  When blocks are folded into a surface, their
messages are checked outside of every isolation, and the first message whose check panics stops the
whole fold (`StopsAt`).

* `node_panics`: only a validator can stop a tree from being shown.
* `failures_stay_in_place`: what a failure costs, on each way to show blocks or a surface.
* `panic_leaves_fold`: a validator that stops a fold, with blocks that all have a view without it.
-/

namespace AgentSurface

/-! ### Checks that panic -/

namespace Update

variable {catalog : Catalog} {panic : Panic}

theorem panics_of_validateEntry {index : Nat} {raw : Json}
    (h : validateEntry catalog index raw = .error panic) : catalog.Panics panic := by
  unfold validateEntry at h
  split at h
  · cases h
  · split at h
    · cases h
    · next entry hentry =>
      rcases Host.bind_eq_error_iff.1 h with h | ⟨result, -, h⟩
      · exact ⟨entry, List.mem_of_find?_eq_some hentry, Catalog.Entry.panics_of_checkPayload h⟩
      · cases result <;> cases h

theorem panics_of_validateFrom {index : Nat} {items : List Json}
    (h : validateFrom catalog index items = .error panic) : catalog.Panics panic := by
  induction items generalizing index with
  | nil => cases h
  | cons raw rest ih =>
    rcases Host.bind_eq_error_iff.1 h with h | ⟨verdict, -, h⟩
    · exact panics_of_validateEntry h
    · rcases Host.bind_eq_error_iff.1 h with h | ⟨later, -, h⟩
      · exact ih h
      · cases h

theorem panics_of_validate {message : Json} (h : validate catalog message = .error panic) :
    catalog.Panics panic := by
  unfold validate at h
  split at h
  · exact panics_of_validateFrom h
  · cases h

end Update

namespace Render

open Catalog (RenderError)

variable {bs : Bindings} {catalog : Catalog} {panic : Panic}

/-! ### Trees -/

theorem catalogElement_panics {entry : Catalog.Entry} {props : Json.Fields}
    (h : catalogElement catalog entry props = .error panic) : entry.Panics panic := by
  unfold catalogElement at h
  rcases Host.bind_eq_error_iff.1 h with h | ⟨result, -, h⟩
  · exact Catalog.Entry.panics_of_checkPayload h
  · cases result <;> cases h

/-- What a name stands for is a type of the catalog if no binding says otherwise. -/
theorem get?_of_resolve {name : String} {entry : Catalog.Entry}
    (h : bs.resolve name = some (.component entry)) : bs.catalog.get? name = some entry := by
  unfold Bindings.resolve at h
  split at h
  · cases h
  · cases h
  · split at h
    · obtain ⟨found, hfound, heq⟩ := Option.map_eq_some_iff.1 h
      cases heq
      exact hfound
    · cases h

/-- A panic while a resolved name is shown comes from the catalog. -/
theorem resolved_panics {target : Resolved} {props : ElementProps} {name : String}
    (htarget : bs.resolve name = some target) (h : resolved bs target props = .error panic) :
    bs.catalog.Panics panic := by
  cases target with
  | element | custom => cases h
  | component entry =>
    exact ⟨entry, List.mem_of_find?_eq_some (get?_of_resolve htarget), catalogElement_panics h⟩

theorem ident_panics {name : String} (h : ident bs name = .error panic) :
    bs.catalog.Panics panic := by
  unfold ident at h
  split at h
  · cases h
  · next target htarget => exact resolved_panics htarget h

/-- A panic in the attributes comes from the catalog. -/
theorem attributes_panics {attrs : List Jsx.Attribute} {props : Json.Fields}
    {slots : List (String × View)} (h : attributes bs props slots attrs = .error panic) :
    bs.catalog.Panics panic := by
  induction attrs generalizing props slots with
  | nil => cases h
  | cons a rest ih =>
    obtain ⟨n, value⟩ := a
    cases value with
    | literal v => exact ih h
    | ident name =>
      rcases Host.bind_eq_error_iff.1 h with h | ⟨v, -, h⟩
      · exact ident_panics h
      · exact ih h

mutual

/-- **Only a validator stops a tree from being shown.** -/
theorem node_panics : ∀ (n : Jsx.Node) (panic : Panic), node bs n = .error panic →
    bs.catalog.Panics panic
  | .text t, panic, h => by rw [node] at h; cases h
  | .fragment children, panic, h => by
    rw [node] at h
    rcases Host.bind_eq_error_iff.1 h with h | ⟨views, -, h⟩
    · exact nodes_panics children panic h
    · cases h
  | .expression (.ident name), panic, h => by
    rw [node] at h
    exact ident_panics h
  | .expression (.literal w), panic, h => by rw [node] at h; cases h
  | .element name attrs children, panic, h => by
    rw [node] at h
    split at h
    · cases h
    · next target htarget =>
      rcases Host.bind_eq_error_iff.1 h with h | ⟨⟨props, slots⟩, -, h⟩
      · exact attributes_panics h
      · rcases Host.bind_eq_error_iff.1 h with h | ⟨views, -, h⟩
        · exact nodes_panics children panic h
        · exact resolved_panics htarget h

/-- A panic among the nodes comes from the catalog. -/
theorem nodes_panics : ∀ (list : List Jsx.Node) (panic : Panic), nodes bs list = .error panic →
    bs.catalog.Panics panic
  | [], panic, h => by rw [nodes] at h; cases h
  | n :: rest, panic, h => by
    rw [nodes] at h
    rcases Host.bind_eq_error_iff.1 h with h | ⟨v, -, h⟩
    · exact node_panics n panic h
    · rcases Host.bind_eq_error_iff.1 h with h | ⟨views, -, h⟩
      · exact nodes_panics rest panic h
      · cases h

end

/-! ### Blocks -/

theorem length_blocksFrom (bs : Bindings) (index : Nat) (list : List Stream.Block) :
    (blocksFrom bs index list).length = list.length := by
  induction list generalizing index with
  | nil => rfl
  | cons b rest ih => rw [blocksFrom, List.length_cons, List.length_cons, ih]

/-- **Only a validator stops a block from being shown.** -/
theorem blockContent_panics {b : Stream.Block} (h : blockContent bs b = .error panic) :
    bs.catalog.Panics panic := by
  cases b with
  | text | fault => cases h
  | jsx source tree =>
    rw [blockContent_jsx] at h
    exact node_panics _ panic h
  | update message raw =>
    rcases Host.bind_eq_error_iff.1 h with h | ⟨v, -, h⟩
    · exact Update.panics_of_validate h
    · cases h

/-- What stands in the place of what a panic stopped. -/
def panicView (scope : String) (panic : Panic) : View :=
  .renderError scope (RenderError.panicked panic.message).message

/-- A block is shown as it is, or its place tells of a validator that panicked. -/
theorem block_cases (bs : Bindings) (index : Nat) (b : Stream.Block) :
    blockContent bs b = .ok (block bs index b) ∨
      ∃ panic, bs.catalog.Panics panic ∧ block bs index b = panicView (scope index b) panic := by
  rw [block]
  cases h : blockContent bs b with
  | ok v => exact .inl rfl
  | error panic => exact .inr ⟨panic, blockContent_panics h, rfl⟩

/-! ### Folds -/

/-- The check of one of the messages stops in this panic, and no message before has stopped. -/
inductive StopsAt (catalog : Catalog) (panic : Panic) : List Json → Prop where
  | here {message : Json} {rest : List Json} (h : Update.validate catalog message = .error panic) :
    StopsAt catalog panic (message :: rest)
  | later {message : Json} {rest : List Json} {v : Update.Validation}
    (h : Update.validate catalog message = .ok v) (hrest : StopsAt catalog panic rest) :
    StopsAt catalog panic (message :: rest)

/-- The messages stop the surface exactly where one of them makes a validator panic. -/
theorem applyRaws_eq_error_iff {s : Surface} {list : List Json} :
    s.applyRaws catalog list = .error panic ↔ StopsAt catalog panic list := by
  induction list generalizing s with
  | nil =>
    constructor
    · intro h
      cases h
    · rintro ⟨⟩
  | cons message rest ih =>
    rw [Surface.applyRaws, Surface.applyRaw]
    cases hv : Update.validate catalog message with
    | error first =>
      constructor
      · intro h
        cases h
        exact .here hv
      · intro h
        cases h with
        | here h => rw [hv] at h; cases h; rfl
        | later h => rw [hv] at h; cases h
    | ok v =>
      refine Iff.trans (ih (s := s.applyMessage v)) ⟨.later hv, fun h => ?_⟩
      cases h with
      | here h => rw [hv] at h; cases h
      | later _ hrest => exact hrest

/-- A fold gives the views that the blocks have without a surface, or stops. -/
theorem intoSurface_cases (bs : Bindings) (list : List Stream.Block) (s : Surface) :
    (∃ next, intoSurface bs list s = .ok (blocks bs list, next)) ∨
      ∃ panic, intoSurface bs list s = .error panic ∧
        StopsAt bs.catalog panic (messages list) := by
  rw [intoSurface, intoSurfaceFrom_eq]
  cases h : s.applyRaws bs.catalog (messages list) with
  | ok next => exact .inl ⟨next, rfl⟩
  | error panic => exact .inr ⟨panic, rfl, applyRaws_eq_error_iff.1 h⟩

/-- **Failures stay in their places**, but for a panic in the check of a message that is folded.

Take any bindings, with validators, render functions and bound elements that may give errors and
panic.  Each block of a list has a view, which depends on the place and the block alone; it is what
the block is shown as, unless a validator panicked.  Each component of a surface has a view, which
depends on the component alone.  Folding gives the same views of the blocks, with a surface, or
stops in a panic; and it stops exactly in the first panic that the check of a message comes to. -/
theorem failures_stay_in_place (bs : Bindings) (list : List Stream.Block) (s : Surface) :
    (blocks bs list).length = list.length ∧
    (∀ i b, list[i]? = some b → (blocks bs list)[i]? = some (block bs i b) ∧
      (blockContent bs b = .ok (block bs i b) ∨
        ∃ panic, bs.catalog.Panics panic ∧ block bs i b = panicView (scope i b) panic)) ∧
    (surface bs s).length = s.size ∧
    (∀ (i : Nat) e, s.toList[i]? = some e → (surface bs s)[i]? = some (surfaceEntry bs e)) ∧
    ((∃ next, intoSurface bs list s = .ok (blocks bs list, next)) ∨
      ∃ panic, intoSurface bs list s = .error panic) ∧
    ∀ panic, intoSurface bs list s = .error panic ↔ StopsAt bs.catalog panic (messages list) := by
  refine ⟨length_blocksFrom bs 0 list, fun i b hb => ⟨?_, block_cases bs i b⟩, ?_, fun i e he => ?_,
    (intoSurface_cases bs list s).imp_right fun ⟨panic, h, _⟩ => ⟨panic, h⟩, fun panic => ?_⟩
  · rw [blocks, getElem?_blocksFrom, hb, Nat.zero_add]
    rfl
  · simp only [surface, Surface.toList, Surface.size, List.length_map]
  · rw [surface, List.getElem?_map, he]
    rfl
  · rw [intoSurface, intoSurfaceFrom_eq, ← applyRaws_eq_error_iff (s := s)]
    cases s.applyRaws bs.catalog (messages list) with
    | ok next => exact ⟨fun h => (by cases h), fun h => (by cases h)⟩
    | error first => exact ⟨fun h => (by cases h; rfl), fun h => (by cases h; rfl)⟩

/-- Prose, a component whose validator panics, and prose again: each block has a view, and the fold
stops. -/
theorem panic_leaves_fold :
    let bs : Bindings := { catalog := ⟨[
      { typeName := "Card", purpose := "", data := ⟨fun _ _ => Host.panic (some "boom"), none⟩ }]⟩ }
    let message : Json :=
      .object [("surfaceUpdate", .object [("components", .array [
        .object [("id", .string "a"), ("component", .object [("Card", .object [])])]])])]
    let list : List Stream.Block := [.text "Hi", .update message "", .text "Bye"]
    blocks bs list =
        [.markdown "Hi", .renderError "a2ui block #1" "render panicked: boom", .markdown "Bye"] ∧
      ¬ ∃ views next, intoSurface bs list {} = .ok (views, next) := by
  intro bs message list
  have hstop : intoSurface bs list {} = .error ⟨some "boom"⟩ := rfl
  refine ⟨rfl, ?_⟩
  rintro ⟨views, next, h⟩
  cases hstop.symm.trans h

end Render
end AgentSurface
