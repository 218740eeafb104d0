import Mathlib.Tactic.Choose
import AgentSurface.Proofs.Render.Agreement
import AgentSurface.Proofs.Update.Entries
import AgentSurface.Proofs.Update.Independence

/-!
# Render — a view for each component

A surface update is shown as a fragment with one child for each component.  The check sorts the
components into two lists, and the views of both are put back into the order of the message by their
indices; for what has an unknown type, the component is looked up in the message again.  None of
this is seen in the outcome: each child is what its component, its index and the catalog make of it
(`ShownAs`), whatever the other components are.

* `shownAs_viewWith`: a verdict is shown as its component has to be.
* `each_component_shown`: the fragment of a message, and that of a message without components.
-/

namespace AgentSurface

/-! ### What a type shows -/

namespace Catalog.Entry

/-- What the entry of a type shows: the component, if no render function does, and otherwise what
the render function gives, or a fallback for its error or panic. -/
inductive Renders (entry : Entry) (props : ComponentProps) : View → Prop where
  | plain (h : entry.render = none) :
    Renders entry props (.component props.id props.typeName props.data props.options)
  | given {render : Renderer} {view : View} (h : entry.render = some render)
    (hview : render props = .ok (.ok view)) : Renders entry props view
  | failed {render : Renderer} {error : RenderError} (h : entry.render = some render)
    (herror : render props = .ok (.error error)) :
    Renders entry props (.renderError props.id error.message)
  | panicked {render : Renderer} {panic : Panic} (h : entry.render = some render)
    (hpanic : render props = .error panic) :
    Renders entry props (.renderError props.id (RenderError.panicked panic.message).message)

end Catalog.Entry

namespace Render

open Catalog.Entry (givenFields)
open Schema (FieldError)
open Update (Acceptable Carries Judged Ruling Shape Verdict WellShaped dataOf validateEntry)

variable {catalog : Catalog} {index : Nat} {raw : Json}

theorem renders_component {entry : Catalog.Entry} {props : Catalog.ComponentProps}
    (hentry : catalog.get? props.typeName = some entry) (raw : Json) :
    entry.Renders props (component catalog props true raw) := by
  simp only [component, hentry, if_true]
  cases hrender : entry.render with
  | none => exact .plain hrender
  | some render =>
    show entry.Renders props (runRenderer props.id (render props))
    cases hresult : render props with
    | error panic => exact .panicked hrender hresult
    | ok result =>
      cases result with
      | error error => exact .failed hrender hresult
      | ok view => exact .given hrender hresult

/-! ### What a component is shown as -/

/-- What a component is to be shown as, by itself, its index and the catalog. -/
inductive ShownAs (catalog : Catalog) (index : Nat) (raw : Json) : View → Prop where
  | rejected {e : Update.InvalidEntry} (hnot : ¬ Acceptable catalog raw)
    (h : validateEntry catalog index raw = .ok (.error e)) :
    ShownAs catalog index raw (.fallback (.validationError e.id e.typeName e.errors raw))
  | unknown {s : Shape} (hs : WellShaped raw s) (hnone : catalog.get? s.typeName = none) :
    ShownAs catalog index raw (.fallback (.unknownType s.id s.typeName raw))
  | known {s : Shape} {entry : Catalog.Entry} {view : View} (hs : WellShaped raw s)
    (hentry : catalog.get? s.typeName = some entry)
    (hadmits : entry.Admits (dataOf s.payload) (Json.Fields.get? s.payload "options"))
    (hview : entry.Renders
      { id := s.id, typeName := s.typeName, data := dataOf s.payload,
        options := .object (entry.defaultOptions.merge
          (givenFields (Json.Fields.get? s.payload "options"))) } view) :
    ShownAs catalog index raw view

/-- The view of a verdict, with the component that it is about. -/
def viewWith (catalog : Catalog) (raw : Json) : Verdict → View
  | .ok e => component catalog ⟨e.id, e.typeName, e.data, e.options⟩ e.known raw
  | .error e => invalidEntry e

/-- The component of a verdict is found again in its message. -/
theorem verdictView_eq {message : Json} {items : List Json} {verdict : Verdict}
    (hcarries : Carries message items) (hraw : items[index]? = some raw)
    (h : verdict.index? = some index) :
    verdictView catalog message verdict = viewWith catalog raw verdict := by
  cases verdict with
  | error e => rfl
  | ok e =>
    obtain rfl : e.index = index := Option.some.inj h
    have hat : componentAt message e.index = raw := by
      simp only [componentAt, Update.components_eq_ok_iff.2 hcarries, hraw, Option.getD_some]
    rw [verdictView, validEntry, hat]
    rfl

/-- **A verdict is shown as its component has to be.** -/
theorem shownAs_viewWith {verdict : Verdict} (h : validateEntry catalog index raw = .ok verdict) :
    ShownAs catalog index raw (viewWith catalog raw verdict) := by
  have hruling := Update.ruling_of_validateEntry h
  cases verdict with
  | error e =>
    obtain rfl : e.entry = raw := by cases hruling <;> rfl
    exact .rejected hruling.not_acceptable h
  | ok e =>
    cases hruling with
    | unknown hs hnone =>
      have hview : ShownAs catalog index raw _ := .unknown hs hnone
      simpa only [viewWith, component, hnone] using hview
    | fit hs hentry hadmits =>
      exact .known hs hentry hadmits (renders_component hentry raw)

/-! ### The components of a message -/

/-- The view at a place of a fragment is that of the component there. -/
theorem map_verdictView {message : Json} {items : List Json} {verdicts : List Verdict}
    (hcarries : Carries message items) (h : Judged catalog 0 items verdicts)
    {verdictOf : Nat → Json → Verdict}
    (hof : ∀ i raw, validateEntry catalog i raw = .ok (verdictOf i raw)) :
    verdicts.map (verdictView catalog message) =
      items.mapIdx fun i raw => viewWith catalog raw (verdictOf i raw) := by
  -- The index of a verdict is its place, and at this place the message has its component.
  symm
  rw [List.mapIdx_eq_iff]
  intro i
  rw [List.getElem?_map]
  cases hverdict : verdicts[i]? with
  | none =>
    rw [List.getElem?_eq_none_iff, h.length_eq, ← List.getElem?_eq_none_iff] at hverdict
    rw [hverdict]
    rfl
  | some verdict =>
    obtain ⟨raw, hraw, hchecked⟩ := h.exists_getElem? hverdict
    rw [Nat.zero_add] at hchecked
    have hindex : verdict.index? = some i := Update.index?_of_validateEntry hchecked
    obtain rfl : verdict = verdictOf i raw := by
      have hsame := hchecked.symm.trans (hof i raw)
      cases hsame
      rfl
    rw [hraw, Option.map_some, Option.map_some, verdictView_eq hcarries hraw hindex]

theorem validation_rejected (message : Json) (fault : Update.EnvelopeFault) :
    validation catalog message (Update.rejected message fault) =
      .fragment [.fallback (.validationError none none
        [⟨.structural, .message, [], fault.message⟩] message)] := by
  simp [validation, Update.rejected, invalidEntry]

/-- **Each component is shown, in its place.**  With validators that never panic there is a view for
each component at each index, which is what the component has to be shown as.  A message is shown as
the fragment of the views of its components in their order, on all bindings with the catalog; and a
message without components as the fragment of one fallback, with the whole message in it. -/
theorem each_component_shown (hpure : catalog.Pure) :
    ∃ child : Nat → Json → View,
      (∀ index raw, ShownAs catalog index raw (child index raw)) ∧
      ∀ bs : Bindings, bs.catalog = catalog → ∀ (place : Nat) (message : Json) (text : String),
        (∀ items, Carries message items →
          block bs place (.update message text) = .fragment (items.mapIdx child)) ∧
        ((∀ items, ¬ Carries message items) → ∃ error : FieldError,
          block bs place (.update message text) =
            .fragment [.fallback (.validationError none none [error] message)]) := by
  choose verdictOf hof using fun i raw => Update.exists_validateEntry hpure i raw
  refine ⟨fun i raw => viewWith catalog raw (verdictOf i raw),
    fun index raw => shownAs_viewWith (hof index raw), ?_⟩
  rintro bs rfl place message text
  refine ⟨fun items hcarries => ?_, fun hnot => ?_⟩
  · obtain ⟨verdicts, hjudged, hv⟩ := Update.exists_judged_of_carries hpure hcarries
    rw [block_ofVerdicts hjudged hv, map_verdictView hcarries hjudged hof]
  · obtain ⟨fault, hfault⟩ : ∃ fault, Update.validate bs.catalog message =
        .ok (Update.rejected message fault) := Update.validate_of_not_carries hnot
    rw [block, blockContent, hfault]
    exact ⟨_, validation_rejected message fault⟩

/-- A component that is none, one of a type with default options, one of an unknown type, and one
whose render function panics. -/
theorem each_component_shown_mixed :
    let catalog : Catalog := ⟨[
      { typeName := "Card", purpose := "", data := .ofFunction fun _ _ => []
        render := some fun _ => Host.panic (some "boom") },
      { typeName := "Note", purpose := "", data := .ofFunction fun _ _ => []
        defaultOptions := [("tone", .string "info")] }]⟩
    let written (typeName : String) : Json :=
      .object [("id", .string "a"), ("component", .object [(typeName, .object [])])]
    let items : List Json := [.bool true, written "Note", written "Chart", written "Card"]
    let message : Json := .object [("surfaceUpdate", .object [("components", .array items)])]
    catalog.Pure ∧ ∃ child : Nat → Json → View,
      block { catalog } 0 (.update message "") = .fragment (items.mapIdx child) ∧
        block { catalog } 0 (.update message "") = .fragment
          [.fallback (.validationError none none
            [⟨.structural, .entry, [.index 0], "component entry must be an object"⟩] (.bool true)),
          .component "a" "Note" (.object []) (.object [("tone", .string "info")]),
          .fallback (.unknownType "a" "Chart" (written "Chart")),
          .renderError "a" "render panicked: boom"] := by
  intro catalog written items message
  have hpure : catalog.Pure := by
    simp [catalog, Catalog.Pure, Catalog.Entry.Pure, Schema.Validator.Pure,
      Schema.Validator.ofFunction]
  obtain ⟨child, -, hblocks⟩ := each_component_shown hpure
  obtain ⟨hshown, -⟩ := hblocks { catalog } rfl 0 message ""
  have hjudged : Judged catalog 0 items _ := .cons rfl (.cons rfl (.cons rfl (.cons rfl .nil)))
  exact ⟨hpure, child, hshown items (.message rfl rfl),
    validation_ofVerdicts hjudged⟩

end Render
end AgentSurface
