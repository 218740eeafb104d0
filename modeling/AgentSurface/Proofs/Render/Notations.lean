import AgentSurface.Proofs.Json.Fields
import AgentSurface.Proofs.Render.Agreement
import AgentSurface.Proofs.Render.Places
import AgentSurface.Proofs.Update.Independence
import AgentSurface.Proofs.Update.Sending

/-!
# Render — a component in two notations

A component can be written as an element of a JSX tree, whose attributes give identifier, data and
options, and as a component of a message.  Both notations come to the check of a payload, and what
is shown follows from the verdict (`Shown`).

* `notations_agree`: the two are judged alike, and shown by one view or refused for the same errors,
  unless the data are `null`.
* `null_data_told_apart`: data that are `null` stand for an empty object in a message, and for
  themselves in an element.
-/

namespace AgentSurface.Render

open Update (Component)

variable {bs : Bindings} {catalog : Catalog} {entry : Catalog.Entry} {typeName id : String}
  {data options : Json} {v w : View}

/-! ### What a payload is shown as -/

/-- The view that follows from the verdict about a payload; what it was read from may be anything. -/
inductive Shown (catalog : Catalog) (entry : Catalog.Entry) (id : String) (data options : Json) :
    View → Prop where
  | accepted {held : Json} (h : Update.checkPayload entry data (some options) = .ok (.ok held))
    (raw : Json) :
    Shown catalog entry id data options
      (component catalog ⟨id, entry.typeName, data, held⟩ true raw)
  | rejected {errors : List Schema.FieldError}
    (h : Update.checkPayload entry data (some options) = .ok (.error errors)) (raw : Json) :
    Shown catalog entry id data options
      (.fallback (.validationError (some id) (some entry.typeName) errors raw))

/-- Both views are of a payload that was accepted, and are one; or both say that it was refused, with
the same errors. -/
inductive Alike (entry : Catalog.Entry) (id : String) (data options : Json) : View → View → Prop where
  | accepted {held : Json} (h : Update.checkPayload entry data (some options) = .ok (.ok held))
    (v : View) : Alike entry id data options v v
  | rejected {errors : List Schema.FieldError}
    (h : Update.checkPayload entry data (some options) = .ok (.error errors)) (raw raw' : Json) :
    Alike entry id data options
      (.fallback (.validationError (some id) (some entry.typeName) errors raw))
      (.fallback (.validationError (some id) (some entry.typeName) errors raw'))

/-- A payload of a type of the catalog has one verdict, so its views are alike. -/
theorem Shown.alike (hhas : catalog.has entry.typeName = true)
    (hv : Shown catalog entry id data options v) (hw : Shown catalog entry id data options w) :
    Alike entry id data options v w := by
  cases hv with
  | @accepted held h raw =>
    cases hw with
    | accepted h' raw' =>
      cases h.symm.trans h'
      have hraw : component catalog ⟨id, entry.typeName, data, held⟩ true raw =
          component catalog ⟨id, entry.typeName, data, held⟩ true raw' :=
        component_of_has hhas raw raw'
      exact hraw ▸ .accepted h _
    | rejected h' => cases h.symm.trans h'
  | rejected h raw =>
    cases hw with
    | accepted h' => cases h.symm.trans h'
    | rejected h' raw' =>
      cases h.symm.trans h'
      exact .rejected h raw raw'

/-! ### The element -/

/-- Attributes with these literals. -/
def literals (fields : Json.Fields) : List Jsx.Attribute :=
  fields.map fun (name, v) => ⟨name, .literal v⟩

theorem attributes_literals (bs : Bindings) (props fields : Json.Fields)
    (slots : List (String × View)) :
    attributes bs props slots (literals fields) = .ok (props.merge fields, slots) := by
  induction fields generalizing props with
  | nil => rfl
  | cons field rest ih => exact ih (props.insert field.1 field.2)

/-- The properties of a component, of which none stands twice, give what stands in them; where no
data are given, they are what is left when identifier and options are taken out. -/
theorem componentParts_of_nodup {props : Json.Fields} (hnodup : props.keys.Nodup) :
    componentParts typeName props =
      (((props.get? "id").bind Json.string?).getD ("jsx-" ++ Text.lowercase typeName),
        props.get? "options",
        (props.get? "data").getD (.object ((props.takeOut "id").takeOut "options"))) := by
  have hrest := Json.Fields.nodup_keys_takeOut hnodup "id"
  have hoptions : (props.takeOut "id").get? "options" = props.get? "options" :=
    Json.Fields.get?_takeOut_of_ne hnodup (by decide)
  have hdata : ((props.takeOut "id").takeOut "options").get? "data" = props.get? "data" := by
    rw [Json.Fields.get?_takeOut_of_ne hrest (by decide),
      Json.Fields.get?_takeOut_of_ne hnodup (by decide)]
  simp only [componentParts, hoptions, hdata]

theorem componentParts_eq {props : Json.Fields} (hnodup : props.keys.Nodup)
    (hid : props.get? "id" = some (.string id)) (hdata : props.get? "data" = some data) :
    componentParts typeName props = (id, props.get? "options", data) := by
  rw [componentParts_of_nodup hnodup, hid, hdata]
  rfl

/-- A type of the catalog that is exposed and not bound stands for its entry. -/
theorem resolve_of_unbound (hexposed : bs.catalogInJsx = true)
    (hunbound : bs.binding? typeName = none) (hentry : bs.catalog.get? typeName = some entry) :
    bs.resolve typeName = some (.component entry) := by
  rw [Bindings.resolve, hunbound, hentry]
  simp [hexposed]

/-- An element of a type is shown by the verdict about the data and options that it was given. -/
theorem exists_shown_element (hpure : entry.Pure)
    (hresolve : bs.resolve typeName = some (.component entry)) {fields : Json.Fields}
    (hfields : fields.Perm [("id", .string id), ("data", data), ("options", options)]) :
    ∃ v, node bs (.element typeName (literals fields) []) = .ok v ∧
      Shown bs.catalog entry id data options v := by
  have hkeys : (fields.keys).Perm ["id", "data", "options"] := hfields.map Prod.fst
  have hnodup : fields.keys.Nodup := hkeys.nodup_iff.2 (by decide)
  have hget : ∀ key v, (key, v) ∈ [("id", .string id), ("data", data), ("options", options)] →
      fields.get? key = some v :=
    fun key v hmem => (Json.Fields.get?_eq_some_iff hnodup).2 (hfields.mem_iff.2 hmem)
  have hparts : componentParts entry.typeName fields = (id, some options, data) := by
    rw [componentParts_eq hnodup (hget "id" (.string id) (by simp)) (hget "data" data (by simp)),
      hget "options" options (by simp)]
  have hmerge : Json.Fields.merge [] fields = fields := Json.Fields.merge_of_nodup hnodup
  have hnode : node bs (.element typeName (literals fields) []) =
      catalogElement bs.catalog entry fields := by
    rw [node, hresolve]
    dsimp only
    rw [attributes_literals, hmerge]
    rfl
  obtain ⟨verdict, hverdict⟩ := Update.exists_checkPayload hpure data (some options)
  rw [hnode, catalogElement, hparts]
  dsimp only
  rw [hverdict]
  cases verdict with
  | ok held => exact ⟨_, rfl, .accepted hverdict _⟩
  | error errors => exact ⟨_, rfl, .rejected hverdict _⟩

/-! ### The component of a message -/

/-- Data as a message gives them: `null` stands for an empty object. -/
def orEmpty (data : Json) : Json := Update.Payload.shownData { data }

theorem orEmpty_of_ne_null (h : data ≠ .null) : orEmpty data = data := by
  unfold orEmpty Update.Payload.shownData
  split
  · next hnull => exact absurd hnull h
  · rfl

/-- A component as it stands in a message. -/
def written (id typeName : String) (data options : Json) : Json :=
  ((Component.new id typeName data).withOptions options).toJson

/-- A component of a message is shown by the verdict about its data and options, with an empty object
for `null`. -/
theorem shown_verdictView (htype : entry.typeName = typeName)
    (hentry : catalog.get? typeName = some entry) {message : Json} {index : Nat}
    {verdict : Update.Verdict}
    (h : Update.validateEntry catalog index (written id typeName data options) = .ok verdict) :
    Shown catalog entry id (orEmpty data) options (verdictView catalog message verdict) := by
  subst htype
  have hshape : Update.shape (written id entry.typeName data options) =
      .ok ⟨id, entry.typeName, [("data", data), ("options", options)]⟩ :=
    Update.shape_toJson (c := (Component.new id entry.typeName data).withOptions options) rfl
  have hdata : Update.dataOf [("data", data), ("options", options)] = orEmpty data :=
    Update.dataOf_payload ⟨data, some options⟩ [("options", options)]
  have hoptions : Json.Fields.get? [("data", data), ("options", options)] "options" =
      some options := Update.options_payload ⟨data, some options⟩
  rw [Update.validateEntry, hshape] at h
  dsimp only at h
  rw [hdata, hoptions, hentry] at h
  obtain ⟨result, hresult, h⟩ := Host.bind_eq_ok_iff.1 h
  cases result with
  | ok held =>
    cases h
    exact .accepted hresult _
  | error errors =>
    cases h
    exact .rejected hresult _

/-- The view of a message has the view of each of its components in its place. -/
theorem exists_shown_component (hpure : bs.catalog.Pure) (htype : entry.typeName = typeName)
    (hentry : bs.catalog.get? typeName = some entry) {message : Json} {items : List Json}
    (hmessage : Update.Carries message items) {place : Nat}
    (hplace : items[place]? = some (written id typeName data options)) :
    ∃ children child, (∀ index raw, block bs index (.update message raw) = .fragment children) ∧
      children[place]? = some child ∧
      Shown bs.catalog entry id (orEmpty data) options child := by
  obtain ⟨verdicts, hjudged, hv⟩ := Update.exists_judged_of_carries hpure hmessage
  obtain ⟨verdict, hverdict⟩ : ∃ verdict, verdicts[place]? = some verdict := by
    obtain ⟨hlt, -⟩ := List.getElem?_eq_some_iff.1 hplace
    exact ⟨_, List.getElem?_eq_getElem (hjudged.length_eq ▸ hlt)⟩
  obtain ⟨found, hfound, hentryVerdict⟩ := hjudged.exists_getElem? hverdict
  cases hplace.symm.trans hfound
  refine ⟨verdicts.map (verdictView bs.catalog message), verdictView bs.catalog message verdict,
    block_ofVerdicts hjudged hv, ?_,
    shown_verdictView htype hentry (Nat.zero_add place ▸ hentryVerdict)⟩
  rw [List.getElem?_map, hverdict]
  rfl

/-! ### Both -/

/-- **A component means the same in both notations, unless its data are `null`.**

Take a type of the catalog that is exposed to JSX and not bound, and validators that do not panic.
An element with the attributes `id`, `data` and `options`, in any order, is shown by the verdict about
these data and options.  A component of a message with the same identifier, data and options is shown
in its place by the verdict about the same options and data, with an empty object for `null`.  So if
the data are not `null`, then both are accepted and shown by one view, or both are refused under the
same identifier and type for the same errors. -/
theorem notations_agree (hpure : bs.catalog.Pure) (hexposed : bs.catalogInJsx = true)
    (hunbound : bs.binding? typeName = none) (hentry : bs.catalog.get? typeName = some entry)
    {fields : Json.Fields}
    (hfields : fields.Perm [("id", .string id), ("data", data), ("options", options)])
    {message : Json} {items : List Json} (hmessage : Update.Carries message items) {place : Nat}
    (hplace : items[place]? = some (written id typeName data options)) :
    ∃ element children child,
      (∀ index source,
        block bs index (.jsx source [.element typeName (literals fields) []]) = element) ∧
      (∀ index raw, block bs index (.update message raw) = .fragment children) ∧
      children[place]? = some child ∧
      Shown bs.catalog entry id data options element ∧
      Shown bs.catalog entry id (orEmpty data) options child ∧
      (data ≠ .null → Alike entry id data options element child) := by
  have htype : entry.typeName = typeName := by simpa using List.find?_some hentry
  obtain ⟨element, helement, hshown⟩ := exists_shown_element
    (hpure entry (List.mem_of_find?_eq_some hentry))
    (resolve_of_unbound hexposed hunbound hentry) hfields
  obtain ⟨children, child, hblock, hchild, hshown'⟩ :=
    exists_shown_component hpure htype hentry hmessage hplace
  refine ⟨element, children, child, fun index source => ?_, hblock, hchild, hshown, hshown',
    fun hnull => ?_⟩
  · rw [block, blockContent_jsx, root, helement]
    rfl
  · rw [orEmpty_of_ne_null hnull] at hshown'
    refine hshown.alike ?_ hshown'
    rw [Catalog.has, htype, hentry]
    rfl

/-- Data that miss a field, in an element with its attributes in another order, and as the second
component of a message. -/
theorem notations_agree_missing_field :
    let errors : List Schema.FieldError := [⟨.schema, .data, [], "url is required"⟩]
    let bs : Bindings := { catalog := ⟨[
      { typeName := "Card", purpose := "", data := .ofFunction fun _ _ => errors }]⟩ }
    let fields : Json.Fields := [("options", .null), ("id", .string "a"), ("data", .object [])]
    let items : List Json := [.null, written "a" "Card" (.object []) .null]
    let message : Json := .object [("surfaceUpdate", .object [("components", .array items)])]
    bs.catalog.Pure ∧ ∃ children raw raw',
      block bs 0 (.jsx "" [.element "Card" (literals fields) []]) =
        .fallback (.validationError (some "a") (some "Card") errors raw) ∧
      block bs 1 (.update message "") = .fragment children ∧
      children[1]? = some (.fallback (.validationError (some "a") (some "Card") errors raw')) := by
  intro errors bs fields items message
  have hpure : bs.catalog.Pure := by
    simp [bs, Catalog.Pure, Catalog.Entry.Pure, Schema.Validator.Pure, Schema.Validator.ofFunction]
  have hfields : fields.Perm [("id", .string "a"), ("data", .object []), ("options", .null)] :=
    .trans (.swap _ _ _) (.cons _ (.swap _ _ _))
  have hmessage : Update.Carries message items := .message rfl rfl
  have hplace : items[1]? = some (written "a" "Card" (.object []) .null) := rfl
  obtain ⟨v, children, child, hv, hblock, hchild, -, -, halike⟩ :=
    notations_agree hpure rfl rfl rfl hfields hmessage hplace
  refine ⟨hpure, children, ?_⟩
  rw [hv, hblock, hchild]
  cases halike (by simp) with
  | accepted h => cases h
  | rejected h raw raw' =>
    cases h
    exact ⟨raw, raw', rfl, rfl, rfl⟩

/-- A type whose data are an object: `null` is refused in an element, and accepted in a message. -/
theorem null_data_told_apart :
    let errors : List Schema.FieldError :=
      [⟨.schema, .data, [], "null is not of type \"object\""⟩]
    let bs : Bindings := { catalog := ⟨[
      { typeName := "Card", purpose := ""
        data := .ofFunction fun v _ => if v matches .object _ then [] else errors }]⟩ }
    let fields : Json.Fields := [("id", .string "a"), ("data", .null), ("options", .null)]
    let message : Json :=
      .object [("surfaceUpdate", .object [("components", .array [written "a" "Card" .null .null])])]
    block bs 0 (.jsx "" [.element "Card" (literals fields) []]) =
        .fallback (.validationError (some "a") (some "Card") errors (.object fields)) ∧
      block bs 0 (.update message "") =
        .fragment [.component "a" "Card" (.object []) (.object [])] := by
  intro errors bs fields message
  refine ⟨rfl, ?_⟩
  let card : View := .component "a" "Card" (.object []) (.object [])
  calc block bs 0 (.update message "")
      = .fragment (([(some 0, card)].mergeSort before).map (·.2)) := rfl
    _ = .fragment [card] := by rw [List.mergeSort_singleton]; rfl

end AgentSurface.Render
